import DocQuery.Client.Settings
import DocQuery.Proofs.Text.Digits

namespace DocQuery.Settings

open Text

variable {env : String → Option String} {name text : String} {entry : Option String}

/-! ## What stands in a variable -/

def Holds (entry : Option String) (text : List Char) : Prop :=
  ∃ before after, AllBlank before ∧ AllBlank after ∧ entry = some (String.ofList (before ++ (text ++ after)))

def Vacant (entry : Option String) : Prop := ∀ text, entry = some text → AllBlank text.toList

/-- The variable has one of the texts, or it is vacant and the setting has its standard value. -/
def Given (entry : Option String) (spelling : List Char → Prop) (standard : Prop) : Prop :=
  (∃ text, spelling text ∧ Holds entry text) ∨ (standard ∧ Vacant entry)

theorem Holds.vacant (empty : Holds entry []) : Vacant entry := by
  obtain ⟨before, after, blank, blank', rfl⟩ := empty
  rintro _ ⟨⟩
  simpa using blank.append blank'

theorem read_eq_none_iff : read env name = none ↔ Vacant (env name) := by
  cases present : env name with
  | none => simp [read, present, Vacant]
  | some whole => simp [read, present, Vacant, trimmed, trim_eq_nil_iff]

theorem read_eq_some_iff : read env name = some text ↔ Solid text.toList ∧ Holds (env name) text.toList := by
  rw [read, Option.filter_eq_some_iff, Option.map_eq_some_iff]
  constructor
  · rintro ⟨⟨whole, present, rfl⟩, nonempty⟩
    obtain ⟨before, after, blank, blank', split⟩ := exists_padding whole.toList
    rw [trimmed, String.toList_ofList]
    refine ⟨solid_trim (by simpa [trimmed] using nonempty), before, after, blank, blank', ?_⟩
    rw [present, ← split, String.ofList_toList]
  · rintro ⟨solid, before, after, blank, blank', present⟩
    refine ⟨⟨_, present, ?_⟩, by simpa using solid.nonempty⟩
    rw [trimmed, String.toList_ofList, trim_blanks_append blank, trim_append_blanks blank', solid.trim_eq,
      String.ofList_toList]

theorem read_of_holds {cs : List Char} (solid : Solid cs) (holds : Holds (env name) cs) :
    read env name = some (String.ofList cs) :=
  read_eq_some_iff.mpr (by rw [String.toList_ofList]; exact ⟨solid, holds⟩)

theorem getD_read_eq_iff {standard : String} (plain : standard = "" ∨ Solid standard.toList) :
    (read env name).getD standard = text ↔
      ((text = "" ∧ standard = "") ∨ Solid text.toList) ∧ Given (env name) (· = text.toList) (text = standard) := by
  cases found : read env name with
  | none =>
      have vacant := read_eq_none_iff.mp found
      constructor
      · rintro rfl
        exact ⟨plain.imp_left fun empty => ⟨empty, empty⟩, .inr ⟨rfl, vacant⟩⟩
      · rintro ⟨⟨rfl, rfl⟩ | solid, ⟨_, rfl, holds⟩ | ⟨same, -⟩⟩
        · rfl
        · rfl
        · cases (read_of_holds solid holds).symm.trans found
        · exact same.symm
  | some stored =>
      obtain ⟨solid, holds⟩ := read_eq_some_iff.mp found
      have notVacant (vacant : Vacant (env name)) : stored = text := by
        cases (read_eq_none_iff.mpr vacant).symm.trans found
      constructor
      · rintro rfl
        exact ⟨.inr solid, .inl ⟨_, rfl, holds⟩⟩
      · rintro ⟨⟨rfl, -⟩ | solid', ⟨_, rfl, holds'⟩ | ⟨-, vacant⟩⟩
        · exact notVacant holds'.vacant
        · exact notVacant vacant
        · cases (read_of_holds solid' holds').symm.trans found
          exact String.ofList_toList
        · exact notVacant vacant

/-! ## The port -/

theorem port?_eq_some_iff {port : UInt16} : port? text = some port ↔ Numeral port.toNat text.toList := by
  rw [port?, Option.map_eq_some_iff]
  constructor
  · rintro ⟨n, read, rfl⟩
    obtain ⟨within, numeral⟩ := unsigned?_eq_some_iff.mp read
    rwa [UInt16.toNat_ofNat_of_lt' (Nat.lt_succ_of_le within)]
  · intro numeral
    refine ⟨port.toNat, unsigned?_eq_some_iff.mpr ⟨Nat.le_of_lt_succ port.toNat_lt, numeral⟩, ?_⟩
    exact UInt16.ofNat_toNat

theorem port?_eq_none_iff : port? text = none ↔ ¬ ∃ n ≤ 65535, Numeral n text.toList := by
  rw [Option.eq_none_iff_forall_ne_some, ← not_exists, not_iff_not]
  constructor
  · rintro ⟨port, read⟩
    exact ⟨port.toNat, Nat.le_of_lt_succ port.toNat_lt, port?_eq_some_iff.mp read⟩
  · rintro ⟨n, within, numeral⟩
    refine ⟨UInt16.ofNat n, port?_eq_some_iff.mpr ?_⟩
    rwa [UInt16.toNat_ofNat_of_lt' (Nat.lt_succ_of_le within)]

theorem readPort_eq_ok_iff {port : UInt16} : readPort env = .ok port ↔
    Given (env portVariable) (Numeral port.toNat) (port = ({} : Settings).port) := by
  rw [readPort]
  cases found : read env portVariable with
  | none =>
      constructor
      · rintro ⟨⟩
        exact .inr ⟨rfl, read_eq_none_iff.mp found⟩
      · rintro (⟨cs, numeral, holds⟩ | ⟨rfl, -⟩)
        · cases (read_of_holds numeral.unbroken.solid holds).symm.trans found
        · rfl
  | some stored =>
      have stands : Given (env portVariable) (Numeral port.toNat) (port = ({} : Settings).port) ↔
          Numeral port.toNat stored.toList := by
        constructor
        · rintro (⟨cs, numeral, holds⟩ | ⟨-, vacant⟩)
          · cases (read_of_holds numeral.unbroken.solid holds).symm.trans found
            rwa [String.toList_ofList]
          · cases (read_eq_none_iff.mpr vacant).symm.trans found
        · exact fun numeral => .inl ⟨_, numeral, (read_eq_some_iff.mp found).2⟩
      rw [stands, ← port?_eq_some_iff]
      dsimp only
      cases port? stored <;> simp

theorem readPort_eq_error_iff {e : InvalidPort} : readPort env = .error e ↔
    Solid e.value.toList ∧ Holds (env portVariable) e.value.toList ∧ ¬ ∃ n ≤ 65535, Numeral n e.value.toList := by
  rw [← port?_eq_none_iff, ← and_assoc, ← read_eq_some_iff, readPort]
  cases read env portVariable with
  | none => simp
  | some stored =>
      rw [Option.some_inj]
      dsimp only
      constructor
      · cases refused : port? stored with
        | some port => rintro ⟨⟩
        | none =>
            rintro ⟨⟩
            exact ⟨rfl, refused⟩
      · rintro ⟨rfl, refused⟩
        simp only [refused]

/-! ## The settings -/

structure Plain (s : Settings) : Prop where
  address : Solid s.address.toList
  database : ∀ name ∈ s.database, Solid name.toList
  username : s.username = "" ∨ Solid s.username.toList
  password : s.password = "" ∨ Solid s.password.toList

structure SpelledBy (s : Settings) (env : String → Option String) : Prop where
  address : Given (env addressVariable) (· = s.address.toList) (s.address = ({} : Settings).address)
  port : Given (env portVariable) (Numeral s.port.toNat) (s.port = ({} : Settings).port)
  database : Given (env databaseVariable) (fun text => s.database = some (String.ofList text)) (s.database = none)
  username : Given (env usernameVariable) (· = s.username.toList) (s.username = "")
  password : Given (env passwordVariable) (· = s.password.toList) (s.password = "")

theorem read_database_eq_iff {database : Option String} : read env name = database ↔
    (∀ text ∈ database, Solid text.toList) ∧
      Given (env name) (fun text => database = some (String.ofList text)) (database = none) := by
  cases found : read env name with
  | none =>
      have vacant := read_eq_none_iff.mp found
      constructor
      · rintro rfl
        exact ⟨nofun, .inr ⟨rfl, vacant⟩⟩
      · rintro ⟨solid, ⟨cs, rfl, holds⟩ | ⟨rfl, -⟩⟩
        · have solid : Solid cs := by simpa using solid _ rfl
          cases (read_of_holds solid holds).symm.trans found
        · rfl
  | some stored =>
      obtain ⟨solid, holds⟩ := read_eq_some_iff.mp found
      constructor
      · rintro rfl
        exact ⟨fun _ same => Option.some.inj same ▸ solid, .inl ⟨_, congrArg some String.ofList_toList.symm, holds⟩⟩
      · rintro ⟨solid', ⟨cs, rfl, holds'⟩ | ⟨-, vacant⟩⟩
        · have solid' : Solid cs := by simpa using solid' _ rfl
          exact found.symm.trans (read_of_holds solid' holds')
        · cases (read_eq_none_iff.mpr vacant).symm.trans found

/-- An environment gives the plain settings that it spells out, and no others.  It gives none if and only if the port is
a text other than a decimal numeral of a number up to 65535, whatever stands in the other variables. -/
theorem ofEnvironment_outcome_iff (env : String → Option String) :
    (∀ s : Settings, ofEnvironment env = .ok s ↔ s.Plain ∧ s.SpelledBy env) ∧
      ∀ e : InvalidPort, ofEnvironment env = .error e ↔ Solid e.value.toList ∧
        Holds (env portVariable) e.value.toList ∧ ¬ ∃ n ≤ 65535, Numeral n e.value.toList := by
  have standardAddress : Solid ({} : Settings).address.toList := Unbroken.solid (by decide)
  constructor
  · rintro ⟨address, port, database, username, password⟩
    have fields : ofEnvironment env = .ok ⟨address, port, database, username, password⟩ ↔
        (read env addressVariable).getD ({} : Settings).address = address ∧ readPort env = .ok port ∧
          read env databaseVariable = database ∧ (read env usernameVariable).getD "" = username ∧
          (read env passwordVariable).getD "" = password := by
      rw [ofEnvironment]
      cases readPort env <;> simp [and_left_comm]
    rw [fields, getD_read_eq_iff (.inr standardAddress), readPort_eq_ok_iff, read_database_eq_iff,
      getD_read_eq_iff (.inl rfl), getD_read_eq_iff (.inl rfl)]
    constructor
    · rintro ⟨⟨addressPlain, address⟩, port, ⟨databasePlain, database⟩, ⟨usernamePlain, username⟩, passwordPlain,
        password⟩
      -- unlike a name or a password, the address has a standard value that is not empty
      have named : ¬ (({} : Settings).address = "") := by decide
      exact ⟨⟨addressPlain.resolve_left fun empty => named empty.2, databasePlain, usernamePlain.imp_left And.left,
        passwordPlain.imp_left And.left⟩, ⟨address, port, database, username, password⟩⟩
    · rintro ⟨plain, spelled⟩
      exact ⟨⟨.inr plain.address, spelled.address⟩, spelled.port, ⟨plain.database, spelled.database⟩,
        ⟨plain.username.imp_left fun empty => ⟨empty, rfl⟩, spelled.username⟩,
        plain.password.imp_left fun empty => ⟨empty, rfl⟩, spelled.password⟩
  · intro e
    rw [← readPort_eq_error_iff, ofEnvironment]
    cases readPort env <;> simp

example : ofEnvironment (fun name => [(addressVariable, " db.internal\t"), (portVariable, "+0027018 "),
    (databaseVariable, "  "), (usernameVariable, "reader")].lookup name) =
      .ok ⟨"db.internal", 27018, none, "reader", ""⟩ := by decide

end DocQuery.Settings
