import Mathlib.Data.Rat.Init

/-!
# Saving JSON

`save_to_file` and `save_to_file_ordered` of `linux/common/util/helper/nlohmann_json/json_helper.cpp`. The values of both
kinds of `nlohmann` objects are in order of iteration, and what they can do is a parameter. A file that does not exist
has no content, and whether one can be opened for writing is an input.
-/

namespace KnowledgeAcquisition.Util

abbrev Text := List UInt8

def toString (n : Nat) : Text := (Nat.toDigits 10 n).map fun char => UInt8.ofNat char.toNat

/-- A double that is not finite counts as null, as which it is written. -/
inductive Json where
  | null
  | boolean (value : Bool)
  | number (value : Rat)
  | string (value : Text)
  | array (elements : List Json)
  | object (members : List (Text × Json))

namespace Json

def continuation (byte : UInt8) : Bool := 0x80 ≤ byte && byte ≤ 0xBF

def follows (first second : UInt8) : Bool :=
  if first = 0xE0 then 0xA0 ≤ second && second ≤ 0xBF
  else if first = 0xED then 0x80 ≤ second && second ≤ 0x9F
  else if first = 0xF0 then 0x90 ≤ second && second ≤ 0xBF
  else if first = 0xF4 then 0x80 ≤ second && second ≤ 0x8F
  else continuation second

def utf8 : Text → Bool
  | [] => true
  | a :: rest =>
      if a ≤ 0x7F then utf8 rest
      else
        match rest with
        | b :: rest =>
            if 0xC2 ≤ a && a ≤ 0xDF then continuation b && utf8 rest
            else
              match rest with
              | c :: rest =>
                  if 0xE0 ≤ a && a ≤ 0xEF then follows a b && continuation c && utf8 rest
                  else
                    match rest with
                    | d :: rest =>
                        0xF0 ≤ a && a ≤ 0xF4 && follows a b && continuation c && continuation d && utf8 rest
                    | [] => false
              | [] => false
        | [] => false

mutual

def valid : Json → Bool
  | string value => utf8 value
  | array elements => validElements elements
  | object members => validMembers members
  | _ => true

def validElements : List Json → Bool
  | [] => true
  | element :: elements => valid element && validElements elements

def validMembers : List (Text × Json) → Bool
  | [] => true
  | (key, value) :: members => utf8 key && valid value && validMembers members

end

end Json

/-- The calls of `nlohmann`, where `none` is an exception: `find` is `operator[]` of a constant value, and `assign` an
assignment to the one of a variable. -/
structure Nlohmann where
  parse : Text → Option Json
  dump : Json → Int → Option Text
  items : Json → List (Text × Json)
  contains : Json → Text → Bool
  find : Json → Text → Option Json
  assign : Json → Text → Json → Option Json

structure File where
  content : Option Text
  writable : Bool

variable (nlohmann : Nlohmann)

def write (file : File) (json : Json) (indent : Int) : Bool × Option Text :=
  if file.writable then
    match nlohmann.dump json indent with
    | some text => (true, some text)
    | none => (false, some [])
  else (false, file.content)

def saveToFile (file : File) (root : Json) (prettify : Bool) : Bool × Option Text :=
  write nlohmann file root (if prettify then 4 else -1)

def readBaseline (content : Option Text) : Json :=
  match content with
  | some text => (nlohmann.parse text).getD (.object [])
  | none => .object []

def updateExisting (root sorted : Json) (item : Text × Json) : Option Json :=
  if nlohmann.contains root item.1 then
    (nlohmann.find root item.1).bind fun value => nlohmann.assign sorted item.1 value
  else some sorted

def appendNew (sorted : Json) (item : Text × Json) : Option Json :=
  if nlohmann.contains sorted item.1 then some sorted else nlohmann.assign sorted item.1 item.2

/-- The assignments of scenario A keep the keys over which it iterates. -/
def mergeOrdered (baseline root : Json) : Option Json := do
  let sorted ← (nlohmann.items baseline).foldlM (updateExisting nlohmann root) baseline
  (nlohmann.items root).foldlM (appendNew nlohmann) sorted

/-- `none` is an exception; nothing has been written then. -/
def saveToFileOrdered (file : File) (root : Json) (prettify : Bool) : Option (Bool × Option Text) :=
  (mergeOrdered nlohmann (readBaseline nlohmann file.content) root).map fun sorted =>
    write nlohmann file sorted (if prettify then 4 else -1)

end KnowledgeAcquisition.Util
