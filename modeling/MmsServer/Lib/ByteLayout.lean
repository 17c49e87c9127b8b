import MmsServer.Lib.Checked

namespace MmsServer.Lib.ByteLayout

open ByteReader Checked

/-- What a routine does with the buffer it writes to: it puts bytes and passes
over others, which keep their value. A block is what one object writes. -/
inductive Layout
  | done
  | put (bs : Bytes)
  | skip (n : ℕ)
  | seq (l l' : Layout)
  | block (l : Layout)

/-- A buffer with the bytes before and behind the position of the writer. -/
structure Buffer where
  written : Bytes
  left : Bytes

namespace Layout

def seqs (ls : List Layout) : Layout := ls.foldr seq done

def each {α : Type} (f : α → Layout) (as : List α) : Layout := seqs (as.map f)

def writeIf (p : Prop) [Decidable p] (l : Layout) : Layout := if p then l else done

def size : Layout → ℕ
  | done => 0
  | put bs => bs.length
  | skip n => n
  | seq l l' => l.size + l'.size
  | block l => l.size

def write : Layout → Buffer → Outcome Buffer
  | done, b => .ok b
  | put bs, b =>
    if bs.length ≤ b.left.length then .ok ⟨b.written ++ bs, b.left.drop bs.length⟩
    else .fault .overrun
  | skip n, b =>
    if n ≤ b.left.length then .ok ⟨b.written ++ b.left.take n, b.left.drop n⟩
    else .fault .overrun
  | seq l l', b => l.write b >>= l'.write
  | block l, b => l.write b

/-- The bytes that stand in a buffer after the writing, from those before it. -/
def fill : Layout → Bytes → Bytes
  | done, _ => []
  | put bs, _ => bs
  | skip n, old => old.take n
  | seq l l', old => l.fill old ++ l'.fill (old.drop l.size)
  | block l, old => l.fill old

/-- Where the blocks start and end in a buffer. -/
def blocks : ℕ → Layout → List (ℕ × ℕ)
  | _, done => []
  | _, put _ => []
  | _, skip _ => []
  | pos, seq l l' => l.blocks pos ++ l'.blocks (pos + l.size)
  | pos, block l => (pos, pos + l.size) :: l.blocks pos

/-- The first bytes are `bs`, whatever was in the buffer. -/
def Starts (bs : Bytes) (l : Layout) : Prop :=
  bs.length ≤ l.size ∧ ∀ old, l.size ≤ old.length → (l.fill old).take bs.length = bs

/-- Every block starts with its size, in `k` bytes. -/
def Announces (k : ℕ) : Layout → Prop
  | done => True
  | put _ => True
  | skip _ => True
  | seq l l' => l.Announces k ∧ l'.Announces k
  | block l => Starts (putBE k l.size) l ∧ l.Announces k

variable {α β : Type} {k : ℕ}

@[simp] theorem seqs_nil : seqs [] = done := rfl

@[simp] theorem seqs_cons (l : Layout) (ls : List Layout) : seqs (l :: ls) = seq l (seqs ls) := rfl

@[simp] theorem size_done : done.size = 0 := rfl

@[simp] theorem size_put (bs : Bytes) : (put bs).size = bs.length := rfl

@[simp] theorem size_skip (n : ℕ) : (skip n).size = n := rfl

@[simp] theorem size_seq (l l' : Layout) : (seq l l').size = l.size + l'.size := rfl

@[simp] theorem size_block (l : Layout) : (block l).size = l.size := rfl

@[simp] theorem size_writeIf (p : Prop) [Decidable p] (l : Layout) :
    (writeIf p l).size = if p then l.size else 0 := by
  unfold writeIf
  split <;> rfl

@[simp] theorem size_each (f : α → Layout) (as : List α) :
    (each f as).size = (as.map fun a ↦ (f a).size).sum := by
  induction as with
  | nil => rfl
  | cons a as ih => rw [List.map_cons, List.sum_cons, ← ih]; rfl

theorem size_each_const {f : α → Layout} {n : ℕ} (h : ∀ a, (f a).size = n) (as : List α) :
    (each f as).size = as.length * n := by
  induction as with
  | nil => simp
  | cons a as ih =>
    simp only [size_each, h, List.map_cons, List.sum_cons] at ih ⊢
    rw [ih, List.length_cons, Nat.succ_mul, Nat.add_comm]

theorem fill_length (l : Layout) {old : Bytes} (h : l.size ≤ old.length) :
    (l.fill old).length = l.size := by
  induction l generalizing old with
  | done => rfl
  | put bs => rfl
  | skip n => exact (List.length_take ..).trans (Nat.min_eq_left h)
  | seq l l' ih ih' =>
    rw [size_seq] at h
    rw [fill, List.length_append, ih (by omega), ih' (by rw [List.length_drop]; omega), size_seq]
  | block l ih => exact ih h

/-- A buffer with enough room takes everything. -/
theorem write_ok (l : Layout) (b : Buffer) (h : l.size ≤ b.left.length) :
    l.write b = .ok ⟨b.written ++ l.fill b.left, b.left.drop l.size⟩ := by
  induction l generalizing b with
  | done => simp [write, fill]
  | put bs => exact if_pos h
  | skip n => exact if_pos h
  | seq l l' ih ih' =>
    rw [size_seq] at h
    rw [write, ih b (by omega), Outcome.ok_bind, ih' _ (by rw [List.length_drop]; omega)]
    simp only [fill, size_seq, List.append_assoc, List.drop_drop]
  | block l ih => exact ih b h

theorem blocks_bounds (l : Layout) (ha : l.Announces k) {pos s e : ℕ}
    (h : (s, e) ∈ l.blocks pos) : pos ≤ s ∧ s + k ≤ e ∧ e ≤ pos + l.size := by
  induction l generalizing pos with
  | done => cases h
  | put bs => cases h
  | skip n => cases h
  | seq l l' ih ih' =>
    rw [size_seq]
    rcases List.mem_append.mp h with h | h
    · have hb := ih ha.1 h
      omega
    · have hb := ih' ha.2 h
      omega
  | block l ih =>
    rcases List.mem_cons.mp h with h | h
    · cases h
      have hk := ha.1.1
      rw [putBE_length] at hk
      rw [size_block]
      omega
    · exact ih ha.2 h

/-- The sizes that the blocks announce can be read where the blocks start. -/
theorem announces_blocks (l : Layout) (ha : l.Announces k) (pre old : Bytes)
    (hold : l.size ≤ old.length) {s e : ℕ} (h : (s, e) ∈ l.blocks pre.length) :
    ((pre ++ l.fill old).drop s).take k = putBE k (e - s) := by
  induction l generalizing pre old with
  | done => cases h
  | put bs => cases h
  | skip n => cases h
  | seq l l' ih ih' =>
    rw [size_seq] at hold
    have hl : l.size ≤ old.length := by omega
    have hlen := l.fill_length hl
    rw [fill, ← List.append_assoc]
    rcases List.mem_append.mp h with h | h
    · have hb := l.blocks_bounds ha.1 h
      have hpre : (pre ++ l.fill old).length = pre.length + l.size := by
        rw [List.length_append, hlen]
      rw [List.drop_append_of_le_length (by omega),
        List.take_append_of_le_length (by rw [List.length_drop]; omega)]
      exact ih ha.1 pre old hl h
    · rw [← hlen, ← List.length_append] at h
      exact ih' ha.2 (pre ++ l.fill old) (old.drop l.size) (by rw [List.length_drop]; omega) h
  | block l ih =>
    rcases List.mem_cons.mp h with h | h
    · cases h
      have hstart := ha.1.2 old hold
      rw [putBE_length] at hstart
      rw [fill, List.drop_left, Nat.add_sub_cancel_left, hstart]
    · exact ih ha.2 pre old hold h

@[simp] theorem announces_done : done.Announces k := trivial

@[simp] theorem announces_put (bs : Bytes) : (put bs).Announces k := trivial

@[simp] theorem announces_skip (n : ℕ) : (skip n).Announces k := trivial

@[simp] theorem announces_seq (l l' : Layout) :
    (seq l l').Announces k ↔ l.Announces k ∧ l'.Announces k := Iff.rfl

@[simp] theorem announces_writeIf (p : Prop) [Decidable p] (l : Layout) :
    (writeIf p l).Announces k ↔ (p → l.Announces k) := by
  unfold writeIf
  split
  · exact ⟨fun h _ ↦ h, fun h ↦ h ‹p›⟩
  · exact ⟨fun _ hp ↦ absurd hp ‹¬ p›, fun _ ↦ trivial⟩

@[simp] theorem announces_each (f : α → Layout) (as : List α) :
    (each f as).Announces k ↔ ∀ a ∈ as, (f a).Announces k := by
  induction as with
  | nil => simp [each]
  | cons a as ih =>
    rw [List.forall_mem_cons, ← ih]
    exact Iff.rfl

theorem starts_put (bs : Bytes) : Starts bs (put bs) := ⟨le_rfl, fun _ _ ↦ List.take_length ..⟩

theorem Starts.seq {bs : Bytes} {l : Layout} (h : Starts bs l) (l' : Layout) :
    Starts bs (seq l l') := by
  refine ⟨h.1.trans (Nat.le_add_right ..), fun old hold ↦ ?_⟩
  rw [size_seq] at hold
  have hl : l.size ≤ old.length := by omega
  rw [fill, List.take_append_of_le_length (by rw [l.fill_length hl]; exact h.1), h.2 old hl]

/-- Whatever was in the buffer before, the reader returns `a` from what was
written and consumes it. -/
def Reads (r : Reader α) (l : Layout) (a : α) : Prop :=
  ∀ old, l.size ≤ old.length → Yields r (l.fill old) a

theorem Reads.pure (a : α) : Reads (Pure.pure a) done a := fun _ _ ↦ .pure a

theorem Reads.bind {r : Reader α} {f : α → Reader β} {l l' : Layout} {a : α} {b : β}
    (h : Reads r l a) (h' : Reads (f a) l' b) : Reads (r >>= f) (seq l l') b := by
  intro old hold
  rw [size_seq] at hold
  exact (h old (by omega)).bind (h' _ (by rw [List.length_drop]; omega))

theorem Reads.map {r : Reader α} {l : Layout} {a : α} (h : Reads r l a) (g : α → β) :
    Reads (r >>= fun a ↦ Pure.pure (g a)) l (g a) := by
  intro old hold rest
  rw [bind_some (h old hold rest)]
  rfl

theorem Reads.block {r : Reader α} {l : Layout} {a : α} (h : Reads r l a) : Reads r (block l) a := h

theorem Reads.unique {r : Reader α} {l : Layout} {a b : α} (h : Reads r l a) (h' : Reads r l b) :
    a = b := by
  have hlen : l.size ≤ (List.replicate l.size (0 : UInt8)).length := by rw [List.length_replicate]
  have hb := h' _ hlen []
  rw [h _ hlen []] at hb
  exact (Prod.mk.inj (Option.some.inj hb)).1

/-- Behind a first part that is read back, the rest is what has to be read. -/
theorem Reads.bind_iff {r : Reader α} {f : α → Reader β} {l l' : Layout} {a : α} {b : β}
    (h : Reads r l a) : Reads (r >>= f) (seq l l') b ↔ Reads (f a) l' b := by
  refine ⟨fun hb old hold rest ↦ ?_, h.bind⟩
  have hlen : (List.replicate l.size (0 : UInt8)).length = l.size := List.length_replicate
  have hwhole := hb (List.replicate l.size 0 ++ old)
    (by rw [List.length_append, hlen, size_seq]; omega) rest
  rw [fill, List.drop_left' hlen, List.append_assoc,
    bind_some (h _ (by rw [List.length_append, hlen]; omega) _)] at hwhole
  exact hwhole

def readIf (p : Prop) [Decidable p] (r : Reader α) (a : α) : Reader α := if p then r else Pure.pure a

theorem Reads.readIf {p : Prop} [Decidable p] {r : Reader α} {l : Layout} {a : α}
    (h : p → Reads r l a) (b : α) :
    Reads (readIf p r b) (writeIf p l) (if p then a else b) := by
  unfold Layout.readIf writeIf
  split
  · exact h ‹p›
  · exact .pure b

def readMany (r : Reader α) : ℕ → Reader (List α)
  | 0 => Pure.pure []
  | n + 1 => do
    let a ← r
    let as ← readMany r n
    return a :: as

theorem Reads.each {r : Reader β} {f : α → Layout} {g : α → β} (as : List α)
    (h : ∀ a, Reads r (f a) (g a)) : Reads (readMany r as.length) (each f as) (as.map g) := by
  induction as with
  | nil => exact .pure []
  | cons a as ih => exact (h a).bind (ih.map fun bs ↦ g a :: bs)

def readVector [Inhabited α] (r : Reader α) (n : ℕ) : Reader (Vector α n) := do
  let as ← readMany r n
  return Vector.ofFn fun i ↦ as.getD i default

theorem Reads.vector [Inhabited α] {n : ℕ} {r : Reader α} {f : α → Layout} (v : Vector α n)
    (h : ∀ a, Reads r (f a) a) : Reads (readVector r n) (Layout.each f v.toList) v := by
  have hlist := Reads.each (g := id) v.toList h
  rw [Vector.length_toList, List.map_id] at hlist
  have hv : (Vector.ofFn fun i : Fin n ↦ v.toList.getD i default) = v := by
    apply Vector.ext
    intro i hi
    simp
  have hmap := hlist.map fun as ↦ (Vector.ofFn fun i : Fin n ↦ as.getD i default)
  rwa [hv] at hmap

def EndsWith (l l' : Layout) : Prop :=
  ∀ old, l.size ≤ old.length →
    ∃ before old', l.fill old = before ++ l'.fill old' ∧ l'.size ≤ old'.length

theorem EndsWith.refl (l : Layout) : EndsWith l l := fun old hold ↦ ⟨[], old, rfl, hold⟩

theorem EndsWith.trans {l l' l'' : Layout} (h : EndsWith l l') (h' : EndsWith l' l'') :
    EndsWith l l'' := by
  intro old hold
  obtain ⟨before, mid, hfill, hmid⟩ := h old hold
  obtain ⟨before', last, hfill', hlast⟩ := h' mid hmid
  exact ⟨before ++ before', last, by rw [hfill, hfill', List.append_assoc], hlast⟩

theorem EndsWith.size_le {l l' : Layout} (h : EndsWith l l') : l'.size ≤ l.size := by
  have hlen : (List.replicate l.size (0 : UInt8)).length = l.size := List.length_replicate
  obtain ⟨before, old, hfill, hold⟩ := h (List.replicate l.size 0) (by omega)
  have hl := l.fill_length (le_of_eq hlen.symm)
  rw [hfill, List.length_append, l'.fill_length hold] at hl
  omega

theorem endsWith_seq (l l' : Layout) : EndsWith (seq l l') l' := by
  intro old hold
  rw [size_seq] at hold
  exact ⟨l.fill old, old.drop l.size, rfl, by rw [List.length_drop]; omega⟩

theorem endsWith_seqs (ls : List Layout) (l : Layout) : EndsWith (seqs (ls ++ [l])) l := by
  induction ls with
  | nil => exact fun old hold ↦ ⟨[], old, List.append_nil _, hold⟩
  | cons l' ls ih => exact (endsWith_seq l' _).trans ih

theorem endsWith_each (f : α → Layout) (as : List α) (a : α) : EndsWith (each f (as ++ [a])) (f a) := by
  rw [each, List.map_append]
  exact endsWith_seqs _ _

/-- A reader that consumes exactly `n` bytes. -/
def Takes (r : Reader α) (n : ℕ) : Prop :=
  ∀ bs a rest, r bs = some (a, rest) → bs.length = n + rest.length

theorem Reads.size_eq {r : Reader α} {l : Layout} {a : α} {n : ℕ} (h : Reads r l a)
    (ht : Takes r n) : l.size = n := by
  have hlen : l.size ≤ (List.replicate l.size (0 : UInt8)).length := by rw [List.length_replicate]
  have hn := ht _ _ _ (h _ hlen [])
  rw [List.append_nil, l.fill_length hlen, List.length_nil] at hn
  omega

theorem Takes.pure (a : α) : Takes (Pure.pure a : Reader α) 0 := by
  intro bs b rest h
  obtain ⟨-, rfl⟩ := pure_eq_some.mp h
  exact (Nat.zero_add _).symm

theorem Takes.bind {r : Reader α} {f : α → Reader β} {m n : ℕ} (h : Takes r m)
    (h' : ∀ a, Takes (f a) n) : Takes (r >>= f) (m + n) := by
  intro bs b rest hb
  obtain ⟨a, mid, hr, hf⟩ := bind_eq_some.mp hb
  have hm := h bs a mid hr
  have hn := h' a mid b rest hf
  omega

theorem Takes.map {r : Reader α} {n : ℕ} (h : Takes r n) (g : α → β) :
    Takes (r >>= fun a ↦ Pure.pure (g a)) n := h.bind fun a ↦ .pure (g a)

theorem Takes.many {r : Reader α} {n : ℕ} (h : Takes r n) (m : ℕ) :
    Takes (readMany r m) (m * n) := by
  induction m with
  | zero =>
    rw [Nat.zero_mul]
    exact .pure []
  | succ m ih =>
    rw [Nat.succ_mul, Nat.add_comm (m * n)]
    exact h.bind fun a ↦ ih.map fun as ↦ a :: as

theorem Takes.vector [Inhabited α] {r : Reader α} {n : ℕ} (h : Takes r n) (m : ℕ) :
    Takes (readVector r m) (m * n) := (h.many m).map _

end Layout

end MmsServer.Lib.ByteLayout
