import Lrlb.Reactor.ConfigLines

/-! Texts that list a configuration, and what `GetString` finds after they are loaded. -/
namespace Lrlb.Reactor
open Lib

@[ext] structure SectionName where
  text : Str
  nonempty : text ≠ []
  oneLine : '\n' ∉ text
  trimmed : Stripped isSpace text
deriving DecidableEq

/-- What can stand before the equals sign of a setting. -/
@[ext] structure Key where
  text : Str
  nonempty : text ≠ []
  oneLine : '\n' ∉ text
  trimmed : Stripped isSpace text
  noEquals : '=' ∉ text
  start : text.head? ∉ [some '#', some ';', some '[']
deriving DecidableEq

structure Value where
  text : Str
  oneLine : '\n' ∉ text
  trimmed : Stripped isSpace text

abbrev Configuration := SectionName → Key → Option Value

/-- A line by its meaning. -/
inductive ConfigLine where
  | header (name : SectionName)
  | setting (key : Key) (value : Value)
  | blank
  | comment

def Blank (w : Str) : Prop := ∀ c ∈ w, isSpace c = true

instance (w : Str) : Decidable (Blank w) := List.decidableBAll _ w

/-- The ways to write a line, with white space in all places where it may be. -/
inductive Renders : ConfigLine → Str → Prop
  | header (name : SectionName) (w₁ w₂ w₃ w₄ : Str) :
    Blank w₁ → Blank w₂ → Blank w₃ → Blank w₄ →
      Renders (.header name) (w₁ ++ '[' :: (w₂ ++ name.text ++ w₃) ++ ']' :: w₄)
  | setting (key : Key) (value : Value) (w₁ w₂ w₃ w₄ : Str) :
    Blank w₁ → Blank w₂ → Blank w₃ → Blank w₄ →
      Renders (.setting key value) (w₁ ++ key.text ++ w₂ ++ '=' :: (w₃ ++ value.text ++ w₄))
  | blank (w : Str) : Blank w → Renders .blank w
  | comment (w : Str) (c : Char) (rest : Str) : Blank w → c = '#' ∨ c = ';' →
      Renders .comment (w ++ c :: rest)

/-- A setting with the section of the last header before it. -/
structure Setting where
  name : Option SectionName
  key : Key
  value : Value

def settings : Option SectionName → List ConfigLine → List Setting
  | _, [] => []
  | _, .header name :: lines => settings (some name) lines
  | name, .setting key value :: lines => ⟨name, key, value⟩ :: settings name lines
  | name, .blank :: lines | name, .comment :: lines => settings name lines

/-- The text lists the configuration: its settings follow headers, and the last one for a section
and a key has the value. -/
structure Lists (text : Str) (config : Configuration) (lines : List ConfigLine) : Prop where
  renders : List.Forall₂ Renders lines (text.splitOn '\n')
  headed : ∀ x ∈ settings none lines, x.name.isSome
  last : ∀ name key, config name key =
    ((settings none lines).reverse.find? fun x => x.name = some name ∧ x.key = key).map Setting.value

section Lines

variable {w w₁ w₂ w₃ w₄ : Str}

theorem firstChar?_append_cons (hw : Blank w) {c : Char} (hc : isSpace c = false) (rest : Str) :
    firstChar? (w ++ c :: rest) = some c := by
  have hnone : (w.find? fun c => !isSpace c) = none := by
    rw [List.find?_eq_none]
    intro b hb
    simp [hw b hb]
  rw [firstChar?, List.find?_append, hnone, List.find?_cons]
  simp [hc]

theorem Blank.not_mem (hw : Blank w) {c : Char} (hc : isSpace c = false) : c ∉ w := by
  intro hmem
  rw [hw c hmem] at hc
  cases hc

theorem stripped_brackets (inner : Str) : Stripped isSpace ('[' :: inner ++ [']']) := by
  constructor
  · intro c hc
    cases hc
    decide
  · intro c hc
    rw [List.getLast?_concat] at hc
    cases hc
    decide

theorem isSection?_brackets {line inner : Str} (htrim : trim line = '[' :: inner ++ [']'])
    (hne : inner ≠ []) : isSection? line = some (trim inner) := by
  have hlen := List.length_pos_of_ne_nil hne
  have htake : (inner ++ [']']).take ((inner ++ [']']).length + 1 - 2) = inner := by simp
  unfold isSection?
  rw [htrim]
  dsimp only
  rw [if_neg, if_neg]
  · rw [List.cons_append, List.drop_one, List.tail_cons, List.length_cons, htake]
  · rw [List.getLast?_concat]
    simp
  · simp
    omega

theorem isSection?_header (name : SectionName) (h₁ : Blank w₁) (h₂ : Blank w₂) (h₃ : Blank w₃)
    (h₄ : Blank w₄) :
    isSection? (w₁ ++ '[' :: (w₂ ++ name.text ++ w₃) ++ ']' :: w₄) = some name.text := by
  have hline : w₁ ++ '[' :: (w₂ ++ name.text ++ w₃) ++ ']' :: w₄ =
      w₁ ++ ('[' :: (w₂ ++ name.text ++ w₃) ++ [']']) ++ w₄ := by simp
  have hinner : trim (w₂ ++ name.text ++ w₃) = name.text := strip_around h₂ h₃ name.trimmed
  rw [hline, isSection?_brackets (strip_around h₁ h₄ (stripped_brackets _)), hinner]
  simp [name.nonempty]

theorem bare_setting (key : Key) (value : Value) (h₁ : Blank w₁) (h₂ : Blank w₂) (h₃ : Blank w₃)
    (h₄ : Blank w₄) :
    Bare (w₁ ++ key.text ++ w₂ ++ '=' :: (w₃ ++ value.text ++ w₄)) key.text value.text := by
  obtain ⟨c, rest, hkey⟩ := List.exists_cons_of_ne_nil key.nonempty
  have hspace : isSpace c = false := key.trimmed.head c (by simp [hkey])
  have hfirst : firstChar? (w₁ ++ key.text ++ w₂ ++ '=' :: (w₃ ++ value.text ++ w₄)) = some c := by
    rw [hkey, List.append_assoc, List.append_assoc]
    exact firstChar?_append_cons h₁ hspace _
  have hstart : c ≠ '#' ∧ c ≠ ';' ∧ c ≠ '[' := by simpa [hkey] using key.start
  have hequals : '=' ∉ w₁ ++ key.text ++ w₂ := by
    simp [h₁.not_mem, h₂.not_mem, key.noEquals, isSpace]
  constructor
  · apply isSection?_of_firstChar?
    rw [hfirst]
    simpa using hstart.2.2
  · rw [isComment, hfirst]
    simpa using ⟨hstart.1, hstart.2.1⟩
  · have htrim : trim (w₁ ++ key.text ++ w₂) = key.text := strip_around h₁ h₂ key.trimmed
    have htrim' : trim (w₃ ++ value.text ++ w₄) = value.text := strip_around h₃ h₄ value.trimmed
    rw [keyValue?_append_cons hequals, htrim, htrim']

end Lines

/-- What a line means to `Load`. -/
def ConfigLine.effect? (s : Loading) : ConfigLine → Option Loading
  | .header name => some ⟨s.config.enter name.text, some name.text⟩
  | .setting key value =>
    s.m.map fun name => { s with config := s.config.store name key.text value.text }
  | .blank | .comment => some s

theorem Renders.loadLine? {l : ConfigLine} {line : Str} (h : Renders l line) (s : Loading) :
    s.loadLine? line = l.effect? s := by
  cases h with
  | header name w₁ w₂ w₃ w₄ h₁ h₂ h₃ h₄ =>
    exact Loading.loadLine?_header (isSection?_header name h₁ h₂ h₃ h₄)
  | setting key value w₁ w₂ w₃ w₄ h₁ h₂ h₃ h₄ =>
    rw [Loading.loadLine?_bare (bare_setting key value h₁ h₂ h₃ h₄), if_neg key.nonempty]
    rfl
  | blank _ hw =>
    have hfirst : firstChar? line = none := by
      rw [firstChar?, List.find?_eq_none]
      intro c hc
      simp [hw c hc]
    apply Loading.loadLine?_noEquals
    · exact isSection?_of_firstChar? (by simp [hfirst])
    · exact keyValue?_eq_none (hw.not_mem (by decide))
  | comment w c rest hw hc =>
    have hspace : isSpace c = false := by
      obtain rfl | rfl := hc
      · decide
      · decide
    have hfirst := firstChar?_append_cons hw hspace rest
    apply Loading.loadLine?_comment
    · apply isSection?_of_firstChar?
      rw [hfirst]
      obtain rfl | rfl := hc
      · decide
      · decide
    · simpa [isComment, hfirst] using hc

theorem run?_effect? {lines : List ConfigLine} {text : List Str}
    (h : List.Forall₂ Renders lines text) (s : Loading) :
    run? Loading.loadLine? s text = run? ConfigLine.effect? s lines := by
  induction h generalizing s with
  | nil => rfl
  | cons hline _ ih => simp only [run?, hline.loadLine?, ih]

/-- The setting is one for this section and key. -/
def Setting.sets (x : Setting) (name key : Str) : Bool :=
  x.name.map SectionName.text = some name ∧ x.key.text = key

def lastValue (xs : List Setting) (name key : Str) : Option Str :=
  (xs.reverse.find? fun x => x.sets name key).map fun x => x.value.text

theorem lastValue_cons (x : Setting) (xs : List Setting) (name key : Str) :
    lastValue (x :: xs) name key =
      (lastValue xs name key).or (if x.sets name key then some x.value.text else none) := by
  unfold lastValue
  rw [List.reverse_cons, List.find?_append, List.find?_singleton, Option.map_or]
  cases x.sets name key <;> rfl

/-- The last settings are found, and where there is none what was there before. -/
theorem run?_settings (lines : List ConfigLine) (current : Option SectionName) (s : Loading)
    (hm : s.m = current.map SectionName.text)
    (hknown : ∀ name, s.m = some name → (s.config.map name).isSome)
    (hheaded : ∀ x ∈ settings current lines, x.name.isSome) :
    ∃ t, run? ConfigLine.effect? s lines = some t ∧ ∀ name key,
      t.config.lookup name key =
        (lastValue (settings current lines) name key).or (s.config.lookup name key) := by
  -- the section of the last header goes along with `m`
  induction lines generalizing current s with
  | nil => exact ⟨s, rfl, fun name key => rfl⟩
  | cons l lines ih =>
    cases l with
    | header name =>
      obtain ⟨t, ht, hlookup⟩ := ih (some name) ⟨s.config.enter name.text, some name.text⟩ rfl
        (by
          intro n hn
          cases hn
          exact s.config.isSome_enter name.text) hheaded
      refine ⟨t, ht, ?_⟩
      intro n key
      rw [hlookup, ConfigFile.lookup_enter]
      rfl
    | setting key value =>
      obtain ⟨hname, hheaded⟩ := List.forall_mem_cons.mp hheaded
      obtain ⟨name, rfl⟩ := Option.isSome_iff_exists.mp hname
      have hsection := hknown name.text hm
      obtain ⟨t, ht, hlookup⟩ := ih (some name)
        { s with config := s.config.store name.text key.text value.text } hm
        (by
          intro n hn
          rw [ConfigFile.isSome_store]
          exact hknown n hn) hheaded
      have heffect : ConfigLine.effect? s (.setting key value) =
          some { s with config := s.config.store name.text key.text value.text } := by
        simp [ConfigLine.effect?, hm]
      refine ⟨t, ?_, ?_⟩
      · rw [run?, heffect]
        exact ht
      · intro n k
        rw [hlookup, settings, lastValue_cons, Option.or_assoc, ConfigFile.lookup_store hsection]
        congr 1
        by_cases hset : n = name.text ∧ k = key.text
        · simp [hset, Setting.sets]
        · have hsets : ¬ (name.text = n ∧ key.text = k) := fun h => hset ⟨h.1.symm, h.2.symm⟩
          simp [hset, Setting.sets, hsets]
    | blank => exact ih current s hm hknown hheaded
    | comment => exact ih current s hm hknown hheaded

theorem sets_iff (x : Setting) (name : SectionName) (key : Key) :
    x.sets name.text key.text = true ↔ x.name = some name ∧ x.key = key := by
  have hname : x.name.map SectionName.text = some name.text ↔ x.name = some name := by
    rw [Option.map_eq_some_iff]
    constructor
    · intro h
      obtain ⟨n, hn, htext⟩ := h
      rw [hn, SectionName.ext htext]
    · intro h
      exact ⟨name, h, rfl⟩
  rw [Setting.sets, decide_eq_true_iff, hname, Key.ext_iff]

namespace Lists

variable {text : Str} {config : Configuration} {lines : List ConfigLine}

theorem lastValue_eq (h : Lists text config lines) (name : SectionName) (key : Key) :
    lastValue (settings none lines) name.text key.text = (config name key).map Value.text := by
  have hsame : (fun x : Setting => x.sets name.text key.text) =
      fun x => decide (x.name = some name ∧ x.key = key) := by
    funext x
    rw [Bool.eq_iff_iff, sets_iff, decide_eq_true_iff]
  rw [h.last, Option.map_map, lastValue, hsame]
  rfl

/-- A section and a key that some line sets are configured. -/
theorem lastValue_eq_none (h : Lists text config lines) {n k : Str}
    (hnone : ∀ name key value, config name key = some value → ¬ (name.text = n ∧ key.text = k)) :
    lastValue (settings none lines) n k = none := by
  by_contra hsome
  obtain ⟨v, hv⟩ := Option.ne_none_iff_exists'.mp hsome
  obtain ⟨x, hx, -⟩ := Option.map_eq_some_iff.mp hv
  have hsets : x.name.map SectionName.text = some n ∧ x.key.text = k := by
    simpa [Setting.sets] using List.find?_some hx
  obtain ⟨name, -, rfl⟩ := Option.map_eq_some_iff.mp hsets.1
  obtain rfl := hsets.2
  rw [h.lastValue_eq] at hv
  obtain ⟨value, hvalue, -⟩ := Option.map_eq_some_iff.mp hv
  exact hnone name x.key value hvalue ⟨rfl, rfl⟩

end Lists

/-- A text that lists a configuration is read without an error, and then `GetString` finds the
value of every setting and the default for everything else. -/
theorem listed_configuration_found (text : Str) (config : Configuration) (lines : List ConfigLine)
    (h : Lists text config lines) :
    ∃ c, load? text = some c ∧
      (∀ name key value, config name key = some value → ∀ defaultValue,
        c.getString name.text key.text defaultValue = value.text) ∧
      ∀ n k, (∀ name key value, config name key = some value → ¬ (name.text = n ∧ key.text = k)) →
        ∀ defaultValue, c.getString n k defaultValue = defaultValue := by
  obtain ⟨t, ht, hlookup⟩ := run?_settings lines none Loading.init rfl (by simp [Loading.init])
    h.headed
  have hfound : ∀ n k, t.config.lookup n k = lastValue (settings none lines) n k := by
    intro n k
    rw [hlookup]
    exact Option.or_none
  refine ⟨t.config, ?_, ?_, ?_⟩
  · rw [load?, run?_effect? h.renders, ht]
    rfl
  · intro name key value hvalue defaultValue
    rw [ConfigFile.getString_eq, hfound, h.lastValue_eq, hvalue]
    rfl
  · intro n k hnone defaultValue
    rw [ConfigFile.getString_eq, hfound, h.lastValue_eq_none hnone]
    rfl

theorem stripped_singleton {c : Char} (h : isSpace c = false) : Stripped isSpace [c] :=
  ⟨by simpa using h, by simpa using h⟩

def sampleName : SectionName := ⟨['s'], by decide, by decide, stripped_singleton rfl⟩

def sampleKey : Key :=
  ⟨['k'], by decide, by decide, stripped_singleton rfl, by decide, by decide⟩

def sampleValue (c : Char) (hline : c ≠ '\n') (h : isSpace c = false) : Value :=
  ⟨[c], by simpa using hline.symm, stripped_singleton h⟩

/-- One setting, made twice, with a comment before it. -/
def sampleLines : List ConfigLine :=
  [.comment, .header sampleName, .setting sampleKey (sampleValue 'u' (by decide) rfl),
    .header sampleName, .setting sampleKey (sampleValue '=' (by decide) rfl)]

def sampleConfig : Configuration := fun name key =>
  if name = sampleName ∧ key = sampleKey then some (sampleValue '=' (by decide) rfl) else none

def sampleText : Str := ";a=b\n[ s ]\nk = u\n[s]\n k==".toList

theorem sample_listed : Lists sampleText sampleConfig sampleLines := by
  constructor
  · apply List.Forall₂.cons (Renders.comment [] ';' ['a', '=', 'b'] (by decide) (by decide))
    apply List.Forall₂.cons (Renders.header sampleName [] [' '] [' '] [] (by decide) (by decide)
      (by decide) (by decide))
    apply List.Forall₂.cons (Renders.setting sampleKey _ [] [' '] [' '] [] (by decide) (by decide)
      (by decide) (by decide))
    apply List.Forall₂.cons (Renders.header sampleName [] [] [] [] (by decide) (by decide)
      (by decide) (by decide))
    apply List.Forall₂.cons (Renders.setting sampleKey _ [' '] [] [] [] (by decide) (by decide)
      (by decide) (by decide))
    exact List.Forall₂.nil
  · decide
  · intro name key
    by_cases h : name = sampleName ∧ key = sampleKey
    · simp [sampleConfig, sampleLines, settings, h]
    · have h' : ¬ (sampleName = name ∧ sampleKey = key) := fun hsame => h ⟨hsame.1.symm, hsame.2.symm⟩
      simp [sampleConfig, sampleLines, settings, h, h']

theorem sample_found : Lists sampleText sampleConfig sampleLines ∧
    ∃ c, load? sampleText = some c ∧
      ∀ defaultValue, c.getString ['s'] ['k'] defaultValue = ['='] := by
  obtain ⟨c, hc, hfound, -⟩ := listed_configuration_found _ _ _ sample_listed
  exact ⟨sample_listed, c, hc, hfound sampleName sampleKey _ (if_pos ⟨rfl, rfl⟩)⟩

end Lrlb.Reactor
