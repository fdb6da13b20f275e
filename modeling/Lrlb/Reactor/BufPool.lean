import Lrlb.Lib.Linked
import Lrlb.Reactor.InputBuf

/-! `buf_pool`: free lists of `io_buf` objects, one for each size, linked through the objects. -/
namespace Lrlb.Reactor
open Lib

/-- An `io_buf` object, named by how many were made before it. -/
abbrev BufPtr := ℕ

/-- `EXTRA_MEM_LIMIT`, in KB. -/
def extraMemLimit : ℕ := 5 * 1024 * 1024

/-- `pool` has a key for each size, and `none` behind it is `NULL`. -/
structure BufPool where
  bufs : BufPtr → IoBuf
  next : BufPtr → Option BufPtr
  count : ℕ
  pool : Int32 → Option (Option BufPtr)
  totalMem : ℕ

/-- What `alloc_buf` comes to: it ends the process, returns `NULL`, or returns a buffer. -/
inductive AllocResult where
  | exit
  | null
  | buf (s : BufPool) (p : BufPtr)

namespace BufPool

/-- `_pool[index]`; a missing key reads as `NULL`. -/
def entry (s : BufPool) (index : Int32) : Option BufPtr := (s.pool index).getD none

def setEntry (s : BufPool) (index : Int32) (v : Option BufPtr) : BufPool :=
  { s with pool := Function.update s.pool index (some v) }

def setNext (s : BufPool) (p : BufPtr) (v : Option BufPtr) : BufPool :=
  { s with next := Function.update s.next p v }

def modify (s : BufPool) (p : BufPtr) (f : IoBuf → IoBuf) : BufPool :=
  { s with bufs := Function.update s.bufs p (f (s.bufs p)) }

section Operations

-- what the memory of a new object's data holds
variable (raw : BufPtr → ℤ → UInt8)

def empty : BufPool := ⟨fun p => IoBuf.new 0 (raw p), fun _ => none, 0, fun _ => none, 0⟩

/-- `new io_buf(size)`; the object is number `s.count`. -/
def newBuf (s : BufPool) (size : Int32) : BufPool :=
  { s with
    bufs := Function.update s.bufs s.count (IoBuf.new size (raw s.count))
    next := Function.update s.next s.count none
    count := s.count + 1 }

/-- The loop of the constructor that puts `k` more buffers behind `prev`. -/
def fill (size : Int32) : ℕ → BufPool → BufPtr → BufPool
  | 0, s, _ => s
  | k + 1, s, prev => fill size k ((s.newBuf raw size).setNext prev (some s.count)) s.count

/-- `num` buffers of one size, for which `mem` KB are accounted. -/
def addClass (s : BufPool) (size : Int32) (num mem : ℕ) : BufPool :=
  { fill raw size (num - 1) ((s.newBuf raw size).setEntry size (some s.count)) s.count with
    totalMem := s.totalMem + mem }

/-- The sizes, how many buffers of each there are, and the KB accounted for them. The last number
is what the constructor has, although there are 20 of these buffers. -/
def classes : List (Int32 × ℕ × ℕ) :=
  [(4096, 5000, 4 * 5000), (16384, 1000, 16 * 1000), (65526, 500, 64 * 500),
    (262144, 200, 256 * 200), (1048576, 50, 1024 * 50), (4194304, 20, 4096 * 50)]

def create : BufPool :=
  classes.foldl (fun s (size, num, mem) => s.addClass raw size num mem) (empty raw)

def allocBuf (s : BufPool) (n : Int32) : AllocResult :=
  match memCap? n with
  | none => .null
  | some index =>
    match s.entry index with
    | none =>
      if extraMemLimit ≤ s.totalMem + index.toInt.toNat / 1024 then .exit
      else .buf { (s.setEntry index none).newBuf raw index with
        totalMem := s.totalMem + index.toInt.toNat / 1024 } s.count
    | some target => .buf ((s.setEntry index (s.next target)).setNext target none) target

/-- `none` is the failed assertion that the pool has the buffer's size. -/
def revert? (s : BufPool) (buffer : BufPtr) : Option BufPool :=
  let index := (s.bufs buffer).capacity
  let s := s.modify buffer fun b => { b with length := 0, head := 0 }
  if (s.pool index).isSome then
    some ((s.setNext buffer (s.entry index)).setEntry index (some buffer))
  else none

end Operations

variable {σ : Type} {s t : BufPool} {slot : σ → Option BufPtr} {free : Int32 → List BufPtr}
  {x y : σ} {p q : BufPtr} {index : Int32}

/-- Every buffer is in the free list of its size or in one of the slots that own a buffer, and it
is in one place only. -/
structure Accounted (s : BufPool) (slot : σ → Option BufPtr) (free : Int32 → List BufPtr) : Prop where
  linked : ∀ index, Linked s.next (s.entry index) (free index)
  idle : ∀ index, ∀ p ∈ free index, p < s.count ∧ (s.bufs p).capacity = index ∧
    (s.bufs p).length = 0 ∧ (s.bufs p).head = 0
  held : ∀ x p, slot x = some p → p < s.count ∧ s.next p = none ∧ ∀ index, p ∉ free index
  unique : ∀ x y p, slot x = some p → slot y = some p → x = y
  total : ∀ p < s.count, (∃ index, p ∈ free index) ∨ ∃ x, slot x = some p
  sizes : ∀ p < s.count, (s.pool (s.bufs p).capacity).isSome

@[simp] theorem entry_setEntry_self (s : BufPool) (index : Int32) (v : Option BufPtr) :
    (s.setEntry index v).entry index = v := by
  simp [entry, setEntry]

theorem entry_setEntry_ne (s : BufPool) {index i : Int32} (h : i ≠ index) (v : Option BufPtr) :
    (s.setEntry index v).entry i = s.entry i := by
  simp [entry, setEntry, h]

theorem bufs_modify_self (s : BufPool) (p : BufPtr) (f : IoBuf → IoBuf) :
    (s.modify p f).bufs p = f (s.bufs p) := Function.update_self ..

theorem bufs_modify_ne (s : BufPool) (h : q ≠ p) (f : IoBuf → IoBuf) :
    (s.modify p f).bufs q = s.bufs q := Function.update_of_ne h ..

/-- Setting an entry takes no key away. -/
theorem isSome_setEntry {i : Int32} (h : (s.pool i).isSome) (index : Int32) (v : Option BufPtr) :
    ((s.setEntry index v).pool i).isSome := by
  by_cases hi : i = index
  · subst i
    simp [setEntry]
  · simpa [setEntry, hi] using h

theorem allocBuf_ne_null {raw : BufPtr → ℤ → UInt8} {n : Int32} (h : memCap? n = some index) :
    s.allocBuf raw n ≠ .null := by
  unfold allocBuf
  rw [h]
  dsimp only
  split
  · split_ifs <;> exact nofun
  · exact nofun

namespace Accounted

/-- A buffer is in the free list of no other size than its own. -/
theorem index_eq (h : Accounted s slot free) {i j : Int32} (hi : p ∈ free i) (hj : p ∈ free j) :
    i = j := (h.idle i p hi).2.1.symm.trans (h.idle j p hj).2.1

theorem free_eq_cons (h : Accounted s slot free) (hentry : s.entry index = some p) :
    ∃ rest, free index = p :: rest ∧ Linked s.next (s.next p) rest := by
  have hlinked := h.linked index
  cases hfree : free index with
  | nil =>
    rw [hfree, hentry] at hlinked
    cases hlinked
  | cons a rest =>
    rw [hfree] at hlinked
    obtain ⟨ha, hrest⟩ := hlinked
    cases hentry.symm.trans ha
    exact ⟨rest, rfl, hrest⟩

/-- A buffer that is handed out is large enough, empty and in no list, it has no owner yet, and
nothing is written to the others. -/
theorem allocBuf_spec (h : Accounted s slot free) {raw : BufPtr → ℤ → UInt8} {n : Int32}
    (ha : s.allocBuf raw n = .buf t p) :
    memCap? n = some (t.bufs p).capacity ∧ (t.bufs p).length = 0 ∧ (t.bufs p).head = 0 ∧
      t.next p = none ∧ (∀ y, slot y ≠ some p) ∧ ∀ q, q ≠ p → t.bufs q = s.bufs q := by
  unfold allocBuf at ha
  cases hcap : memCap? n with
  | none =>
    rw [hcap] at ha
    cases ha
  | some index =>
    rw [hcap] at ha
    dsimp only at ha
    cases hentry : s.entry index with
    | none =>
      rw [hentry] at ha
      dsimp only at ha
      split_ifs at ha
      cases ha
      refine ⟨?_, ?_, ?_, Function.update_self .., fun y hy => ?_,
        fun q hq => Function.update_of_ne hq ..⟩
      · simp [newBuf, setEntry, IoBuf.new]
      · simp [newBuf, setEntry, IoBuf.new]
      · simp [newBuf, setEntry, IoBuf.new]
      · exact Nat.lt_irrefl _ (h.held y _ hy).1
    | some target =>
      rw [hentry] at ha
      cases ha
      obtain ⟨rest, hfree, -⟩ := h.free_eq_cons hentry
      have hp : p ∈ free index := hfree ▸ List.mem_cons_self
      obtain ⟨-, hsize, hlen, hhead⟩ := h.idle index p hp
      refine ⟨congrArg some hsize.symm, hlen, hhead, Function.update_self .., fun y hy => ?_,
        fun q _ => rfl⟩
      exact (h.held y p hy).2.2 index hp

theorem notMem_fresh (h : Accounted s slot free) (index : Int32) : s.count ∉ free index :=
  fun hmem => Nat.lt_irrefl _ (h.idle index _ hmem).1

/-- A slot's owner may write to the buffer but not change its size. -/
theorem modify (h : Accounted s slot free) (hx : slot x = some p) {f : IoBuf → IoBuf}
    (hf : (f (s.bufs p)).capacity = (s.bufs p).capacity) : Accounted (s.modify p f) slot free := by
  refine ⟨h.linked, fun index q hq => ?_, h.held, h.unique, h.total, fun q hq => ?_⟩
  · have hne : q ≠ p := by
      rintro rfl
      exact (h.held x q hx).2.2 index hq
    change q < s.count ∧ (Function.update s.bufs p _ q).capacity = index ∧
      (Function.update s.bufs p _ q).length = 0 ∧ (Function.update s.bufs p _ q).head = 0
    rw [Function.update_of_ne hne]
    exact h.idle index q hq
  · change (s.pool (Function.update s.bufs p _ q).capacity).isSome
    by_cases hne : q = p
    · subst q
      rw [Function.update_self, hf]
      exact h.sizes p hq
    · rw [Function.update_of_ne hne]
      exact h.sizes q hq

variable [DecidableEq σ]

/-- A buffer changes its owner. -/
theorem move (h : Accounted s slot free) (hx : slot x = some p) (hy : slot y = none) :
    Accounted s (Function.update (Function.update slot x none) y (some p)) free := by
  have hxy : x ≠ y := by
    rintro rfl
    exact nomatch hx.symm.trans hy
  have hcases : ∀ {z q}, Function.update (Function.update slot x none) y (some p) z = some q →
      (z = y ∧ q = p) ∨ (z ≠ y ∧ z ≠ x ∧ slot z = some q) := by
    intro z q hz
    by_cases hzy : z = y
    · subst z
      rw [Function.update_self] at hz
      exact Or.inl ⟨rfl, (Option.some.inj hz).symm⟩
    · rw [Function.update_of_ne hzy] at hz
      by_cases hzx : z = x
      · subst z
        rw [Function.update_self] at hz
        cases hz
      · rw [Function.update_of_ne hzx] at hz
        exact Or.inr ⟨hzy, hzx, hz⟩
  refine ⟨h.linked, h.idle, fun z q hz => ?_, fun z w q hz hw => ?_, fun q hq => ?_, h.sizes⟩
  · rcases hcases hz with ⟨-, rfl⟩ | ⟨-, -, hz⟩
    · exact h.held x _ hx
    · exact h.held z q hz
  · rcases hcases hz with ⟨rfl, rfl⟩ | ⟨-, hzx, hz'⟩
    · rcases hcases hw with ⟨rfl, -⟩ | ⟨-, hwx, hw'⟩
      · rfl
      · exact absurd (h.unique w x _ hw' hx) hwx
    · rcases hcases hw with ⟨rfl, rfl⟩ | ⟨-, -, hw'⟩
      · exact absurd (h.unique z x _ hz' hx) hzx
      · exact h.unique z w q hz' hw'
  · refine (h.total q hq).imp_right ?_
    rintro ⟨z, hz⟩
    by_cases hzx : z = x
    · subst z
      cases hx.symm.trans hz
      exact ⟨y, Function.update_self ..⟩
    · have hzy : z ≠ y := by
        rintro rfl
        exact nomatch hy.symm.trans hz
      exact ⟨z, by rw [Function.update_of_ne hzy, Function.update_of_ne hzx, hz]⟩

theorem held_update (h : Accounted s slot free) {z : σ}
    (hz : Function.update slot x (some p) z = some q) (hne : z ≠ x) :
    q < s.count ∧ s.next q = none ∧ ∀ index, q ∉ free index := by
  rw [Function.update_of_ne hne] at hz
  exact h.held z q hz

/-- A slot that is filled with a buffer that none of the others has. -/
theorem unique_update (h : Accounted s slot free) (hp : ∀ y, slot y ≠ some p) (z w : σ) (q : BufPtr)
    (hz : Function.update slot x (some p) z = some q)
    (hw : Function.update slot x (some p) w = some q) : z = w := by
  have hcases : ∀ {u}, Function.update slot x (some p) u = some q →
      (u = x ∧ q = p) ∨ slot u = some q := by
    intro u hu
    by_cases hux : u = x
    · subst u
      rw [Function.update_self] at hu
      exact Or.inl ⟨rfl, (Option.some.inj hu).symm⟩
    · rw [Function.update_of_ne hux] at hu
      exact Or.inr hu
  rcases hcases hz with ⟨rfl, rfl⟩ | hz'
  · rcases hcases hw with ⟨rfl, -⟩ | hw'
    · rfl
    · exact absurd hw' (hp w)
  · rcases hcases hw with ⟨-, rfl⟩ | hw'
    · exact absurd hz' (hp z)
    · exact h.unique z w q hz' hw'

theorem total_update (h : Accounted s slot free) (hx : slot x = none) (hq : q < s.count) :
    (∃ index, q ∈ free index) ∨ ∃ y, Function.update slot x (some p) y = some q := by
  refine (h.total q hq).imp_right ?_
  rintro ⟨y, hy⟩
  have hne : y ≠ x := by
    rintro rfl
    exact nomatch hx.symm.trans hy
  exact ⟨y, (Function.update_of_ne hne ..).trans hy⟩

variable {raw : BufPtr → ℤ → UInt8}

/-- A size without free buffers: the new one goes to the caller. -/
theorem alloc_new (h : Accounted s slot free) (hx : slot x = none) (hentry : s.entry index = none)
    (mem : ℕ) :
    Accounted { (s.setEntry index none).newBuf raw index with totalMem := mem }
      (Function.update slot x (some s.count)) free := by
  have hold : ∀ {q}, q < s.count → q ≠ s.count := fun hq => Nat.ne_of_lt hq
  refine ⟨fun i => ?_, fun i q hq => ?_, fun z q hz => ?_, ?_, fun q hq => ?_, fun q hq => ?_⟩
  · have hsame : (s.setEntry index none).entry i = s.entry i := by
      by_cases hi : i = index
      · subst i
        rw [entry_setEntry_self, hentry]
      · exact entry_setEntry_ne s hi none
    change Linked (Function.update s.next s.count none) ((s.setEntry index none).entry i) (free i)
    rw [hsame]
    exact (h.linked i).frame (h.notMem_fresh i) none
  · obtain ⟨hlt, hbuf⟩ := h.idle i q hq
    change q < s.count + 1 ∧ (Function.update s.bufs s.count _ q).capacity = i ∧
      (Function.update s.bufs s.count _ q).length = 0 ∧ (Function.update s.bufs s.count _ q).head = 0
    rw [Function.update_of_ne (hold hlt)]
    exact ⟨Nat.lt_succ_of_lt hlt, hbuf⟩
  · change q < s.count + 1 ∧ Function.update s.next s.count none q = none ∧ ∀ i, q ∉ free i
    by_cases hzx : z = x
    · subst z
      rw [Function.update_self] at hz
      cases hz
      exact ⟨Nat.lt_succ_self _, Function.update_self .., h.notMem_fresh⟩
    · obtain ⟨hlt, hnext, hnot⟩ := h.held_update hz hzx
      rw [Function.update_of_ne (hold hlt)]
      exact ⟨Nat.lt_succ_of_lt hlt, hnext, hnot⟩
  · exact h.unique_update fun y hy => Nat.lt_irrefl _ (h.held y _ hy).1
  · rcases Nat.lt_succ_iff_lt_or_eq.mp hq with hlt | rfl
    · exact h.total_update hx hlt
    · exact Or.inr ⟨x, Function.update_self ..⟩
  · change ((s.setEntry index none).pool (Function.update s.bufs s.count _ q).capacity).isSome
    obtain hlt | heq : q < s.count ∨ q = s.count := Nat.lt_succ_iff_lt_or_eq.mp hq
    · rw [Function.update_of_ne (hold hlt)]
      exact isSome_setEntry (h.sizes q hlt) index none
    · subst q
      rw [Function.update_self]
      simp [setEntry, IoBuf.new]

/-- The first buffer of a free list goes to the caller. -/
theorem alloc_free (h : Accounted s slot free) (hx : slot x = none)
    (hentry : s.entry index = some p) :
    ∃ free', Accounted ((s.setEntry index (s.next p)).setNext p none)
      (Function.update slot x (some p)) free' := by
  obtain ⟨rest, hfree, hrest⟩ := h.free_eq_cons hentry
  have hnodup := (h.linked index).nodup
  rw [hfree] at hnodup
  have hp : p ∈ free index := hfree ▸ List.mem_cons_self
  have hsub : ∀ {i q}, q ∈ Function.update free index rest i → q ∈ free i ∧ q ≠ p := by
    intro i q hq
    by_cases hi : i = index
    · subst i
      rw [Function.update_self] at hq
      refine ⟨hfree ▸ List.mem_cons_of_mem p hq, ?_⟩
      rintro rfl
      exact (List.nodup_cons.mp hnodup).1 hq
    · rw [Function.update_of_ne hi] at hq
      refine ⟨hq, ?_⟩
      rintro rfl
      exact hi (h.index_eq hq hp)
  refine ⟨Function.update free index rest, fun i => ?_, fun i q hq => h.idle i q (hsub hq).1, fun z q hz => ?_, ?_,
    fun q hq => ?_, fun q hq => isSome_setEntry (h.sizes q hq) index _⟩
  · change Linked (Function.update s.next p none) ((s.setEntry index (s.next p)).entry i) _
    refine Linked.frame ?_ (fun hmem => (hsub hmem).2 rfl) none
    by_cases hi : i = index
    · subst i
      rw [entry_setEntry_self, Function.update_self]
      exact hrest
    · rw [entry_setEntry_ne s hi, Function.update_of_ne hi]
      exact h.linked i
  · change q < s.count ∧ Function.update s.next p none q = none ∧ _
    by_cases hzx : z = x
    · subst z
      rw [Function.update_self] at hz
      cases hz
      exact ⟨(h.idle index p hp).1, Function.update_self .., fun i hi => (hsub hi).2 rfl⟩
    · obtain ⟨hlt, hnext, hnot⟩ := h.held_update hz hzx
      have hne : q ≠ p := by
        rintro rfl
        exact hnot index hp
      rw [Function.update_of_ne hne]
      exact ⟨hlt, hnext, fun i hi => hnot i (hsub hi).1⟩
  · exact h.unique_update fun y hy => (h.held y p hy).2.2 index hp
  · by_cases hqp : q = p
    · subst q
      exact Or.inr ⟨x, Function.update_self ..⟩
    · refine (h.total_update hx hq).imp_left ?_
      rintro ⟨i, hi⟩
      refine ⟨i, ?_⟩
      by_cases hindex : i = index
      · subst i
        rw [Function.update_self]
        rw [hfree] at hi
        exact (List.mem_cons.mp hi).resolve_left hqp
      · rwa [Function.update_of_ne hindex]

/-- The buffer that is handed out is now in the caller's slot. -/
theorem alloc (h : Accounted s slot free) (hx : slot x = none) {n : Int32}
    (ha : s.allocBuf raw n = .buf t p) :
    ∃ free', Accounted t (Function.update slot x (some p)) free' := by
  unfold allocBuf at ha
  cases hcap : memCap? n with
  | none =>
    rw [hcap] at ha
    cases ha
  | some index =>
    rw [hcap] at ha
    dsimp only at ha
    cases hentry : s.entry index with
    | none =>
      rw [hentry] at ha
      dsimp only at ha
      split_ifs at ha
      cases ha
      exact ⟨free, h.alloc_new hx hentry _⟩
    | some target =>
      rw [hentry] at ha
      cases ha
      exact h.alloc_free hx hentry

/-- A buffer that is given back has a free list to go to. -/
theorem revert (h : Accounted s slot free) (hx : slot x = some p) :
    ∃ t free', s.revert? p = some t ∧ Accounted t (Function.update slot x none) free' ∧
      ∀ q, q ≠ p → t.bufs q = s.bufs q := by
  obtain ⟨hlt, -, hnot⟩ := h.held x p hx
  have hmod := h.modify hx (f := fun b => { b with length := 0, head := 0 }) rfl
  set u := s.modify p fun b => { b with length := 0, head := 0 } with hu
  set index := (s.bufs p).capacity with hindex
  have hbuf : (u.bufs p).capacity = index ∧ (u.bufs p).length = 0 ∧ (u.bufs p).head = 0 := by
    simp [hu, BufPool.modify, hindex]
  have hmem : ∀ {i q}, q ∈ Function.update free index (p :: free index) i ↔
      q ∈ free i ∨ (i = index ∧ q = p) := by
    intro i q
    by_cases hi : i = index
    · subst i
      simp [or_comm]
    · simp [hi]
  have hleft : ∀ {z q}, Function.update slot x none z = some q → z ≠ x ∧ slot z = some q ∧ q ≠ p := by
    intro z q hz
    by_cases hzx : z = x
    · subst z
      rw [Function.update_self] at hz
      cases hz
    · rw [Function.update_of_ne hzx] at hz
      refine ⟨hzx, hz, ?_⟩
      rintro rfl
      exact hzx (h.unique z x q hz hx)
  refine ⟨(u.setNext p (u.entry index)).setEntry index (some p),
    Function.update free index (p :: free index), if_pos (h.sizes p hlt),
    ⟨fun i => ?_, fun i q hq => ?_, fun z q hz => ?_, fun z w q hz hw => ?_, fun q hq => ?_,
      fun q hq => isSome_setEntry (hmod.sizes q hq) index _⟩, fun q hq => Function.update_of_ne hq ..⟩
  · change Linked (Function.update u.next p (u.entry index)) _ _
    by_cases hi : i = index
    · subst i
      rw [entry_setEntry_self, Function.update_self]
      exact (hmod.linked index).push (hnot index)
    · rw [entry_setEntry_ne _ hi, Function.update_of_ne hi]
      exact (hmod.linked i).frame (hnot i) _
  · rcases hmem.mp hq with hq | ⟨rfl, rfl⟩
    · exact hmod.idle i q hq
    · exact ⟨hlt, hbuf⟩
  · obtain ⟨-, hz, hqp⟩ := hleft hz
    obtain ⟨hq, hnext, hno⟩ := hmod.held z q hz
    refine ⟨hq, (Function.update_of_ne hqp ..).trans hnext, fun i hi => ?_⟩
    rcases hmem.mp hi with hi | ⟨-, he⟩
    · exact hno i hi
    · exact hqp he
  · exact h.unique z w q (hleft hz).2.1 (hleft hw).2.1
  · by_cases hqp : q = p
    · subst q
      exact Or.inl ⟨index, hmem.mpr (Or.inr ⟨rfl, rfl⟩)⟩
    · rcases h.total q hq with ⟨i, hi⟩ | ⟨z, hz⟩
      · exact Or.inl ⟨i, hmem.mpr (Or.inl hi)⟩
      · have hzx : z ≠ x := by
          rintro rfl
          exact hqp (Option.some.inj (hz.symm.trans hx))
        exact Or.inr ⟨z, (Function.update_of_ne hzx ..).trans hz⟩

end Accounted

section Constructor

variable {raw : BufPtr → ℤ → UInt8}

/-- A new buffer at one end of the free list of its size. -/
theorem Accounted.grow {size : Int32} {l : List BufPtr} (h : Accounted s slot free)
    (hbufs : t.bufs = Function.update s.bufs s.count (IoBuf.new size (raw s.count)))
    (hcount : t.count = s.count + 1) (hnext : ∀ x q, slot x = some q → t.next q = s.next q)
    (hpool : ∀ i, (s.pool i).isSome ∨ i = size → (t.pool i).isSome)
    (hl : ∀ q, q ∈ l ↔ q ∈ free size ∨ q = s.count)
    (hlinked : ∀ i, Linked t.next (t.entry i) (Function.update free size l i)) :
    Accounted t slot (Function.update free size l) := by
  have hmem : ∀ {i q}, q ∈ Function.update free size l i ↔
      q ∈ free i ∨ (i = size ∧ q = s.count) := by
    intro i q
    by_cases hi : i = size
    · subst i
      simp [hl]
    · simp [hi]
  have hold : ∀ {q}, q < s.count → t.bufs q = s.bufs q := fun hq => by
    rw [hbufs, Function.update_of_ne (Nat.ne_of_lt hq)]
  have hnew : t.bufs s.count = IoBuf.new size (raw s.count) := by
    rw [hbufs, Function.update_self]
  refine ⟨hlinked, fun i q hq => ?_, fun x q hx => ?_, h.unique, fun q hq => ?_, fun q hq => ?_⟩
  · rw [hcount]
    rcases hmem.mp hq with hq | ⟨rfl, rfl⟩
    · obtain ⟨hlt, hbuf⟩ := h.idle i q hq
      rw [hold hlt]
      exact ⟨Nat.lt_succ_of_lt hlt, hbuf⟩
    · rw [hnew]
      exact ⟨Nat.lt_succ_self _, rfl, rfl, rfl⟩
  · obtain ⟨hlt, hn, hnot⟩ := h.held x q hx
    refine ⟨hcount ▸ Nat.lt_succ_of_lt hlt, (hnext x q hx).trans hn, fun i hi => ?_⟩
    rcases hmem.mp hi with hi | ⟨-, he⟩
    · exact hnot i hi
    · exact Nat.ne_of_lt hlt he
  · rw [hcount] at hq
    obtain hlt | rfl := Nat.lt_succ_iff_lt_or_eq.mp hq
    · refine (h.total q hlt).imp_left ?_
      rintro ⟨i, hi⟩
      exact ⟨i, hmem.mpr (Or.inl hi)⟩
    · exact Or.inl ⟨size, hmem.mpr (Or.inr ⟨rfl, rfl⟩)⟩
  · rw [hcount] at hq
    obtain hlt | rfl := Nat.lt_succ_iff_lt_or_eq.mp hq
    · rw [hold hlt]
      exact hpool _ (Or.inl (h.sizes q hlt))
    · rw [hnew]
      exact hpool size (Or.inr rfl)

theorem fill_pool (size : Int32) (k : ℕ) (s : BufPool) (prev : BufPtr) :
    (fill raw size k s prev).pool = s.pool := by
  induction k generalizing s prev with
  | zero => rfl
  | succ k ih => exact ih _ _

theorem addClass_pool (s : BufPool) (size : Int32) (num mem : ℕ) :
    (s.addClass raw size num mem).pool = Function.update s.pool size (some (some s.count)) :=
  fill_pool ..

theorem Accounted.fill {size : Int32} (k : ℕ) {prev : BufPtr} {l : List BufPtr}
    (h : Accounted s slot free) (hslots : ∀ x, slot x = none) (hkey : (s.pool size).isSome)
    (hfree : free size = l ++ [prev]) : ∃ free', Accounted (fill raw size k s prev) slot free' := by
  induction k generalizing s free prev l with
  | zero => exact ⟨free, h⟩
  | succ k ih =>
    have hfresh := h.notMem_fresh
    have hnext : Accounted ((s.newBuf raw size).setNext prev (some s.count)) slot
        (Function.update free size (l ++ [prev] ++ [s.count])) := by
      refine h.grow rfl rfl (fun x q hx => nomatch (hslots x).symm.trans hx) (fun i hi => ?_)
        (fun q => ?_) fun i => ?_
      · exact hi.elim id fun he => he ▸ hkey
      · rw [hfree, List.mem_append (t := [s.count]), List.mem_singleton]
      · change Linked (Function.update (Function.update s.next s.count none) prev (some s.count))
          (s.entry i) _
        by_cases hi : i = size
        · subst i
          rw [Function.update_self]
          refine Linked.snoc ?_ (hfree ▸ hfresh size) (Function.update_self ..)
          exact hfree ▸ (h.linked size).frame (hfresh size) none
        · rw [Function.update_of_ne hi]
          have hnot : prev ∉ free i := fun hmem => hi (h.index_eq hmem (by simp [hfree]))
          exact ((h.linked i).frame (hfresh i) none).frame hnot _
    exact ih hnext hkey (Function.update_self ..)

theorem Accounted.addClass {size : Int32} (h : ∃ free, Accounted s slot free)
    (hslots : ∀ x, slot x = none) (hkey : s.pool size = none) (num mem : ℕ) :
    ∃ free', Accounted (s.addClass raw size num mem) slot free' := by
  obtain ⟨free, h⟩ := h
  have hentry : s.entry size = none := by
    rw [entry, hkey]
    rfl
  have hfree : free size = [] := (hentry ▸ h.linked size).unique rfl
  have hfirst : Accounted ((s.newBuf raw size).setEntry size (some s.count)) slot
      (Function.update free size [s.count]) := by
    refine h.grow rfl rfl (fun x q hx => nomatch (hslots x).symm.trans hx) (fun i hi => ?_)
      (fun q => by simp [hfree]) fun i => ?_
    · rcases hi with hi | rfl
      · exact isSome_setEntry (s := s.newBuf raw size) hi size _
      · simp [setEntry]
    · change Linked (Function.update s.next s.count none) _ _
      by_cases hi : i = size
      · subst i
        rw [entry_setEntry_self, Function.update_self]
        exact ⟨rfl, Function.update_self ..⟩
      · rw [entry_setEntry_ne _ hi, Function.update_of_ne hi]
        exact (h.linked i).frame (h.notMem_fresh i) none
  obtain ⟨free', h'⟩ := hfirst.fill (num - 1) hslots (by simp [setEntry]) (l := [])
    (Function.update_self ..)
  exact ⟨free', h'.linked, h'.idle, h'.held, h'.unique, h'.total, h'.sizes⟩

theorem Accounted.addClasses (hslots : ∀ x, slot x = none) {cs : List (Int32 × ℕ × ℕ)}
    (hcs : (cs.map Prod.fst).Nodup) (hkeys : ∀ c ∈ cs, s.pool c.1 = none)
    (h : ∃ free, Accounted s slot free) : ∃ free,
      Accounted (cs.foldl (fun s (size, num, mem) => s.addClass raw size num mem) s) slot free := by
  induction cs generalizing s with
  | nil => exact h
  | cons c cs ih =>
    obtain ⟨hc, hcs⟩ := List.nodup_cons.mp hcs
    have hnext : ∃ free, Accounted (s.addClass raw c.1 c.2.1 c.2.2) slot free :=
      addClass h hslots (hkeys c List.mem_cons_self) c.2.1 c.2.2
    refine ih hcs (fun d hd => ?_) hnext
    have hne : d.1 ≠ c.1 := fun he => hc (he ▸ List.mem_map_of_mem hd)
    rw [addClass_pool, Function.update_of_ne hne]
    exact hkeys d (List.mem_cons_of_mem c hd)

theorem Accounted.create (slot : σ → Option BufPtr) (hslots : ∀ x, slot x = none) :
    ∃ free, Accounted (create raw) slot free := by
  have hempty : Accounted (empty raw) slot fun _ => [] :=
    ⟨fun _ => rfl, nofun, fun x p hx => (nomatch (hslots x).symm.trans hx), fun x y p hx =>
      (nomatch (hslots x).symm.trans hx), nofun, nofun⟩
  exact addClasses hslots (by decide) (fun _ _ => rfl) ⟨_, hempty⟩

end Constructor

end BufPool

end Lrlb.Reactor
