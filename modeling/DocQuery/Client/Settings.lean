import DocQuery.Text.Basic
import DocQuery.Text.Quoted

namespace DocQuery

structure Settings where
  address : String := "127.0.0.1"
  port : UInt16 := 27017
  database : Option String := none
  username : String := ""
  password : String := ""
deriving DecidableEq

structure InvalidPort where
  value : String
deriving DecidableEq

namespace Settings

def addressVariable : String := "QUARRY_DB_ADDRESS"
def portVariable : String := "QUARRY_DB_PORT"
def databaseVariable : String := "QUARRY_DB_NAME"
def usernameVariable : String := "QUARRY_DB_USERNAME"
def passwordVariable : String := "QUARRY_DB_PASSWORD"

/-! ## Reading an environment -/

def read (env : String → Option String) (name : String) : Option String :=
  ((env name).map Text.trimmed).filter (· ≠ "")

def portLimit : Nat := 65535

def port? (text : String) : Option UInt16 :=
  (Text.unsigned? portLimit text.toList).map UInt16.ofNat

def readPort (env : String → Option String) : Except InvalidPort UInt16 :=
  match read env portVariable with
  | none => .ok ({} : Settings).port
  | some text =>
      match port? text with
      | some port => .ok port
      | none => .error ⟨text⟩

def ofEnvironment (env : String → Option String) : Except InvalidPort Settings :=
  match readPort env with
  | .error e => .error e
  | .ok port => .ok {
      address := (read env addressVariable).getD ({} : Settings).address
      port
      database := read env databaseVariable
      username := (read env usernameVariable).getD ""
      password := (read env passwordVariable).getD "" }

/-! ## Changing settings -/

def withAddress (address : String) (s : Settings) : Settings := { s with address }

def withPort (port : UInt16) (s : Settings) : Settings := { s with port }

def withDatabase (name : String) (s : Settings) : Settings :=
  { s with database := if name = "" then none else some name }

def withCredentials (username password : String) (s : Settings) : Settings :=
  { s with username, password }

/-! ## Writing -/

def uri (s : Settings) : String :=
  let credentials := if s.username = "" then "" else s.username ++ ":" ++ s.password ++ "@"
  "mongodb://" ++ credentials ++ s.address ++ ":" ++ toString s.port.toNat

def concealed (password : String) : String := if password = "" then "" else "***"

def redacted (s : Settings) : Settings := { s with password := concealed s.password }

def description (s : Settings) : String :=
  let database := match s.database with
    | none => "None"
    | some name => "Some(" ++ Text.quoted name ++ ")"
  "Config \x7b address: " ++ Text.quoted s.address ++ ", port: " ++ toString s.port.toNat
    ++ ", database: " ++ database ++ ", username: " ++ Text.quoted s.username
    ++ ", password: " ++ Text.quoted (concealed s.password) ++ " \x7d"

end Settings

def InvalidPort.message (e : InvalidPort) : String :=
  "invalid port '" ++ e.value ++ "' in " ++ Settings.portVariable

end DocQuery
