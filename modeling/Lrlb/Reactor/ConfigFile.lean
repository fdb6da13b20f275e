import Lrlb.Lib.Run
import Lrlb.Lib.Stream
import Lrlb.Lib.Text

/-! `config_file`: the text of a configuration, line by line, and what is looked up in it. -/
namespace Lrlb.Reactor
open Lib

abbrev Str := List Char

/-- `isspace`. -/
def isSpace (c : Char) : Bool := c ∈ [' ', '\t', '\n', '\x0b', '\x0c', '\r']

def trimLeft (s : Str) : Str := s.dropWhile isSpace

def trimRight (s : Str) : Str := s.rdropWhile isSpace

def trim (s : Str) : Str := trimLeft (trimRight s)

/-- `isSection`, with the name of the section that the line opens. -/
def isSection? (line : Str) : Option Str :=
  let name := trim line
  if name = [] ∨ name.length ≤ 2 then none
  else if name.head? ≠ some '[' ∨ name.getLast? ≠ some ']' then none
  else some (trim ((name.drop 1).take (name.length - 2)))

/-- The key and the value of a line with an equals sign. -/
def keyValue? (line : Str) : Option (Str × Str) :=
  (line.findIdx? fun c => c = '=').map fun equPos =>
    (trim (line.take equPos), trim (line.drop (equPos + 1)))

structure ConfigFile where
  map : Str → Option (Str → Option Str)

namespace ConfigFile

def getString (c : ConfigFile) (name key defaultValue : Str) : Str :=
  match c.map name with
  | none => defaultValue
  | some entries => (entries key).getD defaultValue

/-- The entries of a section that is there. -/
def store (c : ConfigFile) (name key value : Str) : ConfigFile :=
  ⟨Function.update c.map name
    ((c.map name).map fun entries => Function.update entries key (some value))⟩

/-- The section, which is added if it is new. -/
def enter (c : ConfigFile) (name : Str) : ConfigFile :=
  match c.map name with
  | none => ⟨Function.update c.map name (some fun _ => none)⟩
  | some _ => c

def lookup (c : ConfigFile) (name key : Str) : Option Str :=
  (c.map name).bind fun entries => entries key

theorem getString_eq (c : ConfigFile) (name key defaultValue : Str) :
    c.getString name key defaultValue = (c.lookup name key).getD defaultValue := by
  unfold getString lookup
  cases c.map name with
  | none => rfl
  | some entries => rfl

theorem isSome_enter (c : ConfigFile) (name : Str) : ((c.enter name).map name).isSome := by
  unfold enter
  cases h : c.map name with
  | none => simp
  | some entries => simp [h]

theorem lookup_enter (c : ConfigFile) (name n key : Str) :
    (c.enter name).lookup n key = c.lookup n key := by
  unfold enter lookup
  cases h : c.map name with
  | none =>
    by_cases hn : n = name
    · simp [hn, h]
    · simp [hn]
  | some entries => rfl

theorem isSome_store (c : ConfigFile) (name key value n : Str) :
    ((c.store name key value).map n).isSome = (c.map n).isSome := by
  unfold store
  by_cases hn : n = name
  · simp [hn]
  · simp [hn]

theorem lookup_store {c : ConfigFile} {name : Str} (h : (c.map name).isSome)
    (key value n k : Str) : (c.store name key value).lookup n k =
      if n = name ∧ k = key then some value else c.lookup n k := by
  obtain ⟨entries, hentries⟩ := Option.isSome_iff_exists.mp h
  unfold store lookup
  by_cases hn : n = name
  · by_cases hk : k = key
    · simp [hn, hk, hentries]
    · simp [hn, hk, hentries]
  · simp [hn]

end ConfigFile

/-- The state of `Load`: the pointer `m` is null or points to the map of a section. -/
structure Loading where
  config : ConfigFile
  m : Option Str

namespace Loading

def init : Loading := ⟨⟨fun _ => none⟩, none⟩

/-- One line in `Load`; `none` is the use of `m` while it is null. -/
def loadLine? (s : Loading) (line : Str) : Option Loading :=
  match isSection? line with
  | some name => some ⟨s.config.enter name, some name⟩
  | none =>
    match keyValue? line with
    | none => some s
    | some (key, value) =>
      if key = [] then some s
      else if key.head? = some '#' ∨ key.head? = some ';' then some s
      else s.m.map fun name => { s with config := s.config.store name key value }

end Loading

/-- `Load` of a file with this text. Each round takes the text up to the next newline or to the
end, so that there is one line more than there are newlines. -/
def load? (text : Str) : Option ConfigFile :=
  (run? Loading.loadLine? Loading.init (text.splitOn '\n')).map fun s => s.config

/-- The separators of `GetStringList`. -/
def isSep (c : Char) : Bool := c ∈ [',', ' ', '\t']

def findFirstOf? (str : Str) (pos : ℕ) : Option ℕ :=
  ((str.drop pos).findIdx? isSep).map fun i => pos + i

def findFirstNotOf? (str : Str) (pos : ℕ) : Option ℕ :=
  ((str.drop pos).findIdx? fun c => !isSep c).map fun i => pos + i

/-- One round of the loop of `GetStringList`: the elements with which it returns, or an element
and the next start. -/
def splitBody (str : Str) (start : ℕ) : List Str ⊕ (Str × ℕ) :=
  match findFirstOf? str start with
  | none => .inl [str.drop start]
  | some index =>
    let substr := (str.drop start).take (index - start)
    match findFirstNotOf? str index with
    | none => .inl [substr]
    | some start => .inr (substr, start)

/-- The loop of `GetStringList` in at most `n` rounds. -/
def splitList? (n : ℕ) (str : Str) : Option (List Str) :=
  (loop (splitBody str) n 0).map fun r => r.1 ++ r.2

def ConfigFile.getStringList? (n : ℕ) (c : ConfigFile) (name key : Str) : Option (List Str) :=
  splitList? n (c.getString name key [])

end Lrlb.Reactor
