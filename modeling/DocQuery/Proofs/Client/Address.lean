import DocQuery.Client.Settings
import Mathlib.Data.List.Basic

namespace DocQuery.Settings

variable {s t : Settings}

theorem divided_cases {separator : Char} {first rest first' rest' : List Char}
    (same : first ++ separator :: rest = first' ++ separator :: rest') :
    (first = first' ∧ rest = rest') ∨
      (∃ more, first' = first ++ separator :: more ∧ rest = more ++ separator :: rest') ∨
      ∃ more, first = first' ++ separator :: more ∧ rest' = more ++ separator :: rest := by
  rcases List.append_eq_append_iff.mp same with ⟨_ | ⟨c, more⟩, rfl, behind⟩ | ⟨_ | ⟨c, more⟩, rfl, behind⟩
  · exact .inl ⟨by rw [List.append_nil], (List.cons_eq_cons.mp behind).2⟩
  · obtain ⟨rfl, rfl⟩ := List.cons_eq_cons.mp behind
    exact .inr (.inl ⟨more, rfl, rfl⟩)
  · exact .inl ⟨by rw [List.append_nil], (List.cons_eq_cons.mp behind).2.symm⟩
  · obtain ⟨rfl, rfl⟩ := List.cons_eq_cons.mp behind
    exact .inr (.inr ⟨more, rfl, rfl⟩)

theorem toList_uri (hs : s.username ≠ "") :
    s.uri.toList = "mongodb://".toList ++
      ((s.username.toList ++ ':' :: (s.password.toList ++ '@' :: s.address.toList)) ++
        ':' :: Nat.toDigits 10 s.port.toNat) := by
  simp [uri, hs, ← Nat.toList_repr]

theorem colon_not_mem_digits (n : Nat) : ':' ∉ Nat.toDigits 10 n := by
  intro mem
  exact absurd (Nat.isDigit_of_mem_toDigits (by decide) (by decide) mem) (by decide)

theorem port_inj {m n : UInt16} (same : Nat.toDigits 10 m.toNat = Nat.toDigits 10 n.toNat) : m = n := by
  rw [← UInt16.toNat_inj, ← Nat.ofDigitChars_ten_toDigits (n := m.toNat), same, Nat.ofDigitChars_ten_toDigits]

theorem divided_of_uri_eq (hs : s.username ≠ "") (ht : t.username ≠ "") (same : s.uri = t.uri) :
    s.port = t.port ∧
      s.username.toList ++ ':' :: (s.password.toList ++ '@' :: s.address.toList) =
        t.username.toList ++ ':' :: (t.password.toList ++ '@' :: t.address.toList) := by
  have texts := congrArg String.toList same
  rw [toList_uri hs, toList_uri ht, List.append_cancel_left_eq] at texts
  -- the port is a numeral, so the text can be divided at no later colon
  rcases divided_cases texts with ⟨before, ports⟩ | ⟨more, -, ports⟩ | ⟨more, -, ports⟩
  · exact ⟨port_inj ports, before⟩
  · exact absurd (ports ▸ List.mem_append_right more List.mem_cons_self) (colon_not_mem_digits _)
  · exact absurd (ports ▸ List.mem_append_right more List.mem_cons_self) (colon_not_mem_digits _)

/-- Neither name goes on behind the other one and a colon, and neither address has the other one behind an at sign. -/
structure Aligned (s t : Settings) : Prop where
  username : ∀ more, t.username ≠ s.username ++ ":" ++ more
  username' : ∀ more, s.username ≠ t.username ++ ":" ++ more
  address : ∀ more, t.address ≠ more ++ "@" ++ s.address
  address' : ∀ more, s.address ≠ more ++ "@" ++ t.address

theorem eq_of_aligned (aligned : Aligned s t)
    (same : s.username.toList ++ ':' :: (s.password.toList ++ '@' :: s.address.toList) =
      t.username.toList ++ ':' :: (t.password.toList ++ '@' :: t.address.toList)) :
    s.username = t.username ∧ s.password = t.password ∧ s.address = t.address := by
  rcases divided_cases same with ⟨names, rest⟩ | ⟨more, goesOn, -⟩ | ⟨more, goesOn, -⟩
  · rcases divided_cases rest with ⟨passwords, addresses⟩ | ⟨more, -, before⟩ | ⟨more, -, before⟩
    · exact ⟨String.toList_inj.mp names, String.toList_inj.mp passwords, String.toList_inj.mp addresses⟩
    · exact absurd (String.toList_inj.mp (by simpa using before)) (aligned.address' (String.ofList more))
    · exact absurd (String.toList_inj.mp (by simpa using before)) (aligned.address (String.ofList more))
  · exact absurd (String.toList_inj.mp (by simpa using goesOn)) (aligned.username (String.ofList more))
  · exact absurd (String.toList_inj.mp (by simpa using goesOn)) (aligned.username' (String.ofList more))

theorem aligned_of_eq (usernames : s.username = t.username) (addresses : s.address = t.address) : Aligned s t := by
  have behind (name more : String) : name ≠ name ++ ":" ++ more := fun same => by
    have lengths := congrArg String.length same
    simp [String.append_assoc] at lengths
  have before (address more : String) : address ≠ more ++ "@" ++ address := fun same => by
    have lengths := congrArg String.length same
    simp at lengths
  refine ⟨fun more => ?_, fun more => ?_, fun more => ?_, fun more => ?_⟩
  · exact usernames ▸ behind _ more
  · exact usernames ▸ behind _ more
  · exact addresses ▸ before _ more
  · exact addresses ▸ before _ more

theorem aligned_of_plain (names : ':' ∉ s.username.toList ∧ ':' ∉ t.username.toList)
    (addresses : '@' ∉ s.address.toList ∧ '@' ∉ t.address.toList) : Aligned s t := by
  refine ⟨fun more same => names.2 ?_, fun more same => names.1 ?_, fun more same => addresses.2 ?_,
    fun more same => addresses.1 ?_⟩ <;>
  simp [same]

/-! ## What the address tells -/

/-- The address of the store tells the port.  It tells name, password and address as well, just if the names and the
addresses of the settings that it may come from are aligned, as they are without a colon in a name and without an at
sign in an address. -/
theorem uri_identifies (hs : s.username ≠ "") (ht : t.username ≠ "") (same : s.uri = t.uri) :
    s.port = t.port ∧
      ((s.username = t.username ∧ s.password = t.password ∧ s.address = t.address) ↔ Aligned s t) ∧
      (':' ∉ s.username.toList ∧ ':' ∉ t.username.toList → '@' ∉ s.address.toList ∧ '@' ∉ t.address.toList →
        s.username = t.username ∧ s.password = t.password ∧ s.address = t.address) := by
  obtain ⟨ports, divided⟩ := divided_of_uri_eq hs ht same
  exact ⟨ports,
    ⟨fun ⟨names, _, addresses⟩ => aligned_of_eq names addresses, fun aligned => eq_of_aligned aligned divided⟩,
    fun names addresses => eq_of_aligned (aligned_of_plain names addresses) divided⟩

theorem uri_identifies_separators :
    let s : Settings := ⟨"db", 1, none, "u@v", "p:q@r:2"⟩
    let t : Settings := { s with database := some "a" }
    s.username ≠ "" ∧ t.username ≠ "" ∧ s.uri = t.uri ∧
      (':' ∉ s.username.toList ∧ ':' ∉ t.username.toList) ∧ ('@' ∉ s.address.toList ∧ '@' ∉ t.address.toList) ∧
      (s.username = t.username ∧ s.password = t.password ∧ s.address = t.address) ∧ Aligned s t := by
  intro s t
  have hs : s.username ≠ "" := by decide
  have names : ':' ∉ s.username.toList ∧ ':' ∉ t.username.toList := by decide
  have addresses : '@' ∉ s.address.toList ∧ '@' ∉ t.address.toList := by decide
  obtain ⟨-, same_iff, same⟩ := uri_identifies (s := s) (t := t) hs hs rfl
  exact ⟨hs, hs, rfl, names, addresses, same names addresses, same_iff.mp (same names addresses)⟩

theorem uri_colon_shifted (s : Settings) {name : String} (h : name ≠ "") (more password : String) :
    (s.withCredentials (name ++ ":" ++ more) password).uri =
      (s.withCredentials name (more ++ ":" ++ password)).uri := by
  simp [uri, withCredentials, h, String.append_assoc]

theorem uri_at_shifted (s : Settings) {name : String} (h : name ≠ "") (password more address : String) :
    ((s.withCredentials name password).withAddress (more ++ "@" ++ address)).uri =
      ((s.withCredentials name (password ++ "@" ++ more)).withAddress address).uri := by
  simp [uri, withCredentials, withAddress, h, String.append_assoc]

theorem uri_shared :
    let s : Settings := Settings.withCredentials "a:b" "c" {}
    let t : Settings := Settings.withCredentials "a" "b:c" {}
    s.username ≠ "" ∧ t.username ≠ "" ∧ s.uri = t.uri ∧ s.username ≠ t.username ∧ s.password ≠ t.password := by
  decide

end DocQuery.Settings
