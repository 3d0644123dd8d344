import ShellCompletion.Number.Basic

/-! JSON values, as `serde_json` has them before a type is expected of them. Its limit on recursion is assumed to be
    128, so that one level less can be open. -/

namespace ShellCompletion

/-- A JSON value. `flawed` stands for what is written correctly but denotes nothing: a number out of range, a
    string with half of a surrogate pair, or an object with such a key. -/
inductive Json where
  | null
  | bool (value : Bool)
  | number (value : Number)
  | string (value : Text)
  | array (items : List Json)
  | object (fields : List (Text × Json))
  | flawed
deriving Repr

namespace Json

/-- How many arrays and objects may be open at once. -/
def levelLimit : Nat := 127

mutual

/-- Nothing flawed, and at most so many arrays and objects inside one another. -/
def isSound : Nat → Json → Bool
  | _, flawed => false
  | 0, array _ | 0, object _ => false
  | levels + 1, array items => areSound levels items
  | levels + 1, object fields => fieldsAreSound levels fields
  | _, null | _, bool _ | _, number _ | _, string _ => true

def areSound (levels : Nat) : List Json → Bool
  | [] => true
  | j :: js => isSound levels j && areSound levels js

def fieldsAreSound (levels : Nat) : List (Text × Json) → Bool
  | [] => true
  | (_, j) :: fields => isSound levels j && fieldsAreSound levels fields

end

end Json
end ShellCompletion
