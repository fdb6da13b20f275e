import Lrlb.Reactor.ConfigFile

/-! What `Load` does with each kind of line, and the lines that it cannot be given. -/
namespace Lrlb.Reactor
open Lib

/-- The first character that is not white space. -/
def firstChar? (line : Str) : Option Char := line.find? fun c => !isSpace c

def isComment (line : Str) : Bool := firstChar? line = some '#' || firstChar? line = some ';'

/-- The section that these lines have opened last. -/
def opened (lines : List Str) : Option Str := (lines.filterMap isSection?).getLast?

/-- A line with an equals sign that is neither a header nor a comment. -/
structure Bare (line key value : Str) : Prop where
  header : isSection? line = none
  comment : isComment line = false
  split : keyValue? line = some (key, value)

theorem head?_trim (s : Str) : (trim s).head? = firstChar? s := head?_strip s

theorem isSection?_of_firstChar? {line : Str} (h : firstChar? line ≠ some '[') :
    isSection? line = none := by
  unfold isSection?
  dsimp only
  split_ifs with hshort hends
  · rfl
  · rfl
  · rw [head?_trim] at hends
    exact absurd (Or.inl h) hends

theorem forall_ne_equals {s : Str} : '=' ∉ s ↔ ∀ c ∈ s, decide (c = '=') = false := by
  simp only [decide_eq_false_iff_not]
  exact ⟨fun h c hc heq => h (heq ▸ hc), fun h hmem => h '=' hmem rfl⟩

theorem keyValue?_eq_none {line : Str} (h : '=' ∉ line) : keyValue? line = none := by
  unfold keyValue?
  rw [List.findIdx?_eq_none_iff.mpr (forall_ne_equals.mp h), Option.map_none]

theorem keyValue?_append_cons {left : Str} (h : '=' ∉ left) (right : Str) :
    keyValue? (left ++ '=' :: right) = some (trim left, trim right) := by
  unfold keyValue?
  rw [findIdx?_append_cons (forall_ne_equals.mp h) (by simp), Option.map_some, List.take_left]
  simp

theorem exists_of_keyValue? {line key value : Str} (h : keyValue? line = some (key, value)) :
    ∃ left right, line = left ++ '=' :: right ∧ key = trim left ∧ value = trim right := by
  obtain ⟨i, hi, -⟩ := Option.map_eq_some_iff.mp h
  obtain ⟨left, c, right, hline, -, hleft, hc⟩ := exists_of_findIdx? hi
  have heq : c = '=' := by simpa using hc
  rw [heq] at hline
  rw [hline, keyValue?_append_cons (forall_ne_equals.mpr hleft)] at h
  cases h
  exact ⟨left, right, hline, rfl, rfl⟩

/-- Whether the key says that the line is a comment. -/
theorem isComment_of_keyValue? {line key value : Str} (h : keyValue? line = some (key, value)) :
    isComment line = true ↔ key.head? = some '#' ∨ key.head? = some ';' := by
  obtain ⟨left, right, rfl, rfl, -⟩ := exists_of_keyValue? h
  unfold isComment firstChar?
  rw [head?_trim, List.find?_append, ← firstChar?]
  cases firstChar? left with
  | none => simp [isSpace]
  | some c => simp

namespace Loading

variable {s t : Loading} {line key value : Str}

theorem loadLine?_header {name : Str} (h : isSection? line = some name) :
    s.loadLine? line = some ⟨s.config.enter name, some name⟩ := by
  rw [loadLine?, h]

theorem loadLine?_noEquals (hheader : isSection? line = none) (h : keyValue? line = none) :
    s.loadLine? line = some s := by
  rw [loadLine?, hheader, h]

theorem loadLine?_comment (hheader : isSection? line = none) (h : isComment line = true) :
    s.loadLine? line = some s := by
  cases hsplit : keyValue? line with
  | none => exact loadLine?_noEquals hheader hsplit
  | some kv =>
    have hkey := (isComment_of_keyValue? hsplit).mp h
    rw [loadLine?, hheader, hsplit]
    dsimp only
    rw [if_pos hkey, ite_self]

theorem loadLine?_bare (h : Bare line key value) :
    s.loadLine? line = if key = [] then some s
      else s.m.map fun name => { s with config := s.config.store name key value } := by
  have hkey : ¬ (key.head? = some '#' ∨ key.head? = some ';') := by
    rw [← isComment_of_keyValue? h.split, h.comment]
    simp
  rw [loadLine?, h.header, h.split]
  dsimp only
  rw [if_neg hkey]

/-- A line is a header, has no effect, or is bare. -/
theorem line_cases (line : Str) : (∃ name, isSection? line = some name) ∨
    (isSection? line = none ∧ ∀ s : Loading, s.loadLine? line = some s) ∨
      ∃ key value, Bare line key value := by
  cases hheader : isSection? line with
  | some name => exact Or.inl ⟨name, rfl⟩
  | none =>
    right
    cases hcomment : isComment line with
    | true => exact Or.inl ⟨rfl, fun s => loadLine?_comment hheader hcomment⟩
    | false =>
      cases hsplit : keyValue? line with
      | none => exact Or.inl ⟨rfl, fun s => loadLine?_noEquals hheader hsplit⟩
      | some kv => exact Or.inr ⟨kv.1, kv.2, hheader, hcomment, hsplit⟩

/-- What holds after these lines: `m` points to the section that they opened last, and no section
has an entry for the empty key. -/
structure After (lines : List Str) (s : Loading) : Prop where
  m : s.m = opened lines
  known : ∀ name, s.m = some name → (s.config.map name).isSome
  keys : ∀ name, s.config.lookup name [] = none

theorem After.init : After [] init :=
  ⟨rfl, by simp [Loading.init], fun _ => rfl⟩

theorem opened_concat (lines : List Str) (line : Str) :
    opened (lines ++ [line]) = (isSection? line).or (opened lines) := by
  unfold opened
  rw [List.filterMap_append]
  cases h : isSection? line with
  | none => simp [h]
  | some name => simp [h]

theorem After.step {lines : List Str} (h : After lines s) (ht : s.loadLine? line = some t) :
    After (lines ++ [line]) t := by
  obtain ⟨name, hname⟩ | ⟨hheader, hload⟩ | ⟨key, value, hbare⟩ := line_cases line
  · rw [loadLine?_header hname] at ht
    cases ht
    refine ⟨by rw [opened_concat, hname]; rfl, ?_, ?_⟩
    · intro n hn
      cases hn
      exact s.config.isSome_enter name
    · intro n
      rw [ConfigFile.lookup_enter]
      exact h.keys n
  · rw [hload] at ht
    cases ht
    exact ⟨by rw [opened_concat, hheader]; exact h.m, h.known, h.keys⟩
  · have hopened : opened (lines ++ [line]) = opened lines := by rw [opened_concat, hbare.header]; rfl
    rw [loadLine?_bare hbare] at ht
    split_ifs at ht with hkey
    · cases ht
      exact ⟨h.m.trans hopened.symm, h.known, h.keys⟩
    · obtain ⟨name, hname, rfl⟩ := Option.map_eq_some_iff.mp ht
      refine ⟨h.m.trans hopened.symm, ?_, ?_⟩
      · intro n hn
        rw [ConfigFile.isSome_store]
        exact h.known n hn
      · intro n
        rw [ConfigFile.lookup_store (h.known name hname), if_neg fun hn => hkey hn.2.symm]
        exact h.keys n

theorem After.run {lines : List Str} (h : run? loadLine? Loading.init lines = some s) :
    After lines s :=
  run?_history (G := fun _ => True) (fun _ _ _ _ hafter _ ht => hafter.step ht) After.init
    (fun _ _ => trivial) h

end Loading

/-- The lines of the text are read to the end, and every bare line is stored under the section
that was opened last or, if there is none, has no effect. -/
def LoadsLines (text : Str) : Prop :=
  (load? text).isSome ∧ ∀ before line after key value,
    text.splitOn '\n' = before ++ line :: after → Bare line key value →
      ∃ s, run? Loading.loadLine? Loading.init before = some s ∧
        s.loadLine? line = some ((opened before).elim s fun name =>
          { s with config := s.config.store name key value })

/-- The bare lines with a key are the ones that follow a header. -/
def KeysInSections (text : Str) : Prop :=
  ∀ before line after key value, text.splitOn '\n' = before ++ line :: after →
    Bare line key value → (key ≠ [] ↔ (opened before).isSome)

theorem run?_of_keysInSections {text : Str} (h : KeysInSections text) (before after : List Str)
    (hlines : text.splitOn '\n' = before ++ after) :
    ∃ s, run? Loading.loadLine? Loading.init before = some s := by
  -- the lines are read one by one, so the induction is on the last of them
  induction before using List.reverseRecOn generalizing after with
  | nil => exact ⟨_, rfl⟩
  | append_singleton before line ih =>
    rw [List.append_assoc] at hlines
    obtain ⟨s, hs⟩ := ih (line :: after) hlines
    suffices hload : ∃ t, s.loadLine? line = some t by
      obtain ⟨t, ht⟩ := hload
      refine ⟨t, ?_⟩
      rw [run?_append, hs, Option.bind_some, run?, ht]
      rfl
    obtain ⟨name, hname⟩ | ⟨-, hload⟩ | ⟨key, value, hbare⟩ := Loading.line_cases line
    · exact ⟨_, Loading.loadLine?_header hname⟩
    · exact ⟨s, hload s⟩
    · rw [Loading.loadLine?_bare hbare]
      split_ifs with hkey
      · exact ⟨s, rfl⟩
      · have hopen := (h before line after key value hlines hbare).mp hkey
        obtain ⟨name, hname⟩ := Option.isSome_iff_exists.mp hopen
        rw [(Loading.After.run hs).m, hname]
        exact ⟨_, rfl⟩

/-- `Load` uses the null pointer at a line with a key that comes before the first header, and drops
a line with an empty key. Every other text is read as it should be. -/
theorem loads_lines_iff (text : Str) : LoadsLines text ↔ KeysInSections text := by
  constructor
  · intro h before line after key value hlines hbare
    obtain ⟨s, hs, hload⟩ := h.2 before line after key value hlines hbare
    have hafter := Loading.After.run hs
    rw [Loading.loadLine?_bare hbare, hafter.m] at hload
    cases hopened : opened before with
    | none =>
      rw [hopened] at hload
      split_ifs at hload with hkey
      · simp [hkey]
      · cases hload
    | some name =>
      rw [hopened] at hload
      split_ifs at hload with hkey
      · -- the entry would be found under the empty key
        have hsame : s.config = s.config.store name key value :=
          congrArg Loading.config (Option.some.inj hload)
        have hlookup := hafter.keys name
        rw [hsame, ConfigFile.lookup_store (hafter.known name (hafter.m.trans hopened))] at hlookup
        simp [hkey] at hlookup
      · simp [hkey]
  · intro h
    constructor
    · obtain ⟨s, hs⟩ := run?_of_keysInSections h (text.splitOn '\n') [] (List.append_nil _).symm
      rw [load?, hs]
      rfl
    · intro before line after key value hlines hbare
      obtain ⟨s, hs⟩ := run?_of_keysInSections h before (line :: after) hlines
      have hiff := h before line after key value hlines hbare
      refine ⟨s, hs, ?_⟩
      rw [Loading.loadLine?_bare hbare, (Loading.After.run hs).m]
      cases hopened : opened before with
      | none =>
        rw [hopened] at hiff
        rw [if_pos (by simpa using hiff)]
        rfl
      | some name =>
        rw [hopened] at hiff
        rw [if_neg (hiff.mpr rfl)]
        rfl

/-- A setting before any header is a use of the null pointer. In a section, a value without a key is
not stored. -/
theorem key_before_header_crashes : load? ['k', '=', 'v'] = none ∧
    (load? ['[', 's', ']', '\n', '=', 'v']).map (fun c => c.getString ['s'] [] ['d']) =
      some ['d'] := by
  decide

end Lrlb.Reactor
