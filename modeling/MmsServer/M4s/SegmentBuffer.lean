import MmsServer.Lib.Checked

namespace MmsServer.M4s.SegmentBuffer

open Lib.ByteReader Lib.Checked

/-- `buf_` and `used_bytes_`; `allocated_bytes_` is the length of the buffer. -/
structure Mp4Segment where
  buf : Bytes
  usedBytes : ℕ

structure View where
  offset : ℕ
  size : ℕ

/-- The new buffer is twice as large, whatever the size that is asked for. -/
def Mp4Segment.grow (g : Mp4Segment) : Outcome Mp4Segment :=
  let allocated := g.buf.length * 2 % 2 ^ 64
  if g.usedBytes ≤ allocated then
    return { g with buf := g.buf.take g.usedBytes ++ List.replicate (allocated - g.usedBytes) 0 }
  else .fault .overrun

def Mp4Segment.allocBuffer (g : Mp4Segment) (s : ℕ) : Outcome (Mp4Segment × View) := do
  let g ← if g.buf.length ≤ (g.usedBytes + s) % 2 ^ 64 then g.grow else pure g
  return ({ g with usedBytes := (g.usedBytes + s) % 2 ^ 64 }, ⟨g.usedBytes, s⟩)

def Mp4Segment.new : Mp4Segment where
  buf := List.replicate (2 ^ 20) 0
  usedBytes := 0

def Mp4Segment.usedBuf (g : Mp4Segment) : Bytes := g.buf.take g.usedBytes

def View.Inside (v : View) (g : Mp4Segment) : Prop := v.offset + v.size ≤ g.buf.length

def Mp4Segment.write (g : Mp4Segment) (v : View) (data : Bytes) : Mp4Segment :=
  { g with buf := g.buf.take v.offset ++ data ++ g.buf.drop (v.offset + data.length) }

abbrev Request := { data : Bytes // data.length < 2 ^ 64 }

/-- Every view lies inside, behind the one before it, and what was written is kept. -/
def AllInside : Mp4Segment → List Request → Prop
  | _, [] => True
  | g, r :: rs => ∃ g' v, g.allocBuffer r.val.length = .ok (g', v) ∧
    v.offset = g.usedBytes ∧ v.size = r.val.length ∧ g'.usedBytes = v.offset + v.size ∧ v.Inside g' ∧
    g'.buf.take v.offset = g.usedBuf ∧ (g'.write v r.val).usedBuf = g.usedBuf ++ r.val ∧
    AllInside (g'.write v r.val) rs

/-- The size fits behind what is used, at the latest when the buffer is doubled. -/
def Fits (g : Mp4Segment) (s : ℕ) : Prop :=
  g.usedBytes + s < g.buf.length ∨ g.usedBytes + s ≤ g.buf.length * 2 % 2 ^ 64

def AllFit : Mp4Segment → List Request → Prop
  | _, [] => True
  | g, r :: rs => Fits g r.val.length ∧
    ∀ g' v, g.allocBuffer r.val.length = .ok (g', v) → AllFit (g'.write v r.val) rs

section Step

variable {g g' : Mp4Segment} {v : View} {s : ℕ}

/-- What is used is in the buffer, whose length is a `size_t`. -/
structure Proper (g : Mp4Segment) : Prop where
  used_le : g.usedBytes ≤ g.buf.length
  length_lt : g.buf.length < 2 ^ 64

theorem grow_ok (h : g.usedBytes ≤ g.buf.length * 2 % 2 ^ 64) : g.grow = .ok {
    g with
    buf := g.buf.take g.usedBytes ++ List.replicate (g.buf.length * 2 % 2 ^ 64 - g.usedBytes) 0 } := by
  rw [Mp4Segment.grow, if_pos h]
  rfl

theorem grown_length (hg : Proper g) (h : g.usedBytes ≤ g.buf.length * 2 % 2 ^ 64) :
    (g.buf.take g.usedBytes ++ List.replicate (g.buf.length * 2 % 2 ^ 64 - g.usedBytes) (0 : UInt8)).length =
      g.buf.length * 2 % 2 ^ 64 := by
  rw [List.length_append, List.length_take, List.length_replicate, Nat.min_eq_left hg.used_le]
  omega

/-- A size that fits gets a view behind what is used, which is kept. -/
theorem allocBuffer_fits (hg : Proper g) (h : Fits g s) : ∃ g', g.allocBuffer s = .ok (g', ⟨g.usedBytes, s⟩) ∧
    g'.usedBytes = g.usedBytes + s ∧ g.usedBytes + s ≤ g'.buf.length ∧ g'.buf.length < 2 ^ 64 ∧
    g'.buf.take g.usedBytes = g.usedBuf := by
  have hlt := hg.length_lt
  by_cases hroom : g.usedBytes + s < g.buf.length
  · have hmod : (g.usedBytes + s) % 2 ^ 64 = g.usedBytes + s := Nat.mod_eq_of_lt (by omega)
    refine ⟨{ g with usedBytes := (g.usedBytes + s) % 2 ^ 64 }, ?_, hmod, Nat.le_of_lt hroom, hlt, rfl⟩
    rw [Mp4Segment.allocBuffer, if_neg (by omega)]
    rfl
  · have hle : g.usedBytes + s ≤ g.buf.length * 2 % 2 ^ 64 := h.resolve_left hroom
    have hmod : (g.usedBytes + s) % 2 ^ 64 = g.usedBytes + s := Nat.mod_eq_of_lt (by omega)
    have hused : g.usedBytes ≤ g.buf.length * 2 % 2 ^ 64 := by omega
    refine ⟨{
      buf := g.buf.take g.usedBytes ++ List.replicate (g.buf.length * 2 % 2 ^ 64 - g.usedBytes) 0
      usedBytes := (g.usedBytes + s) % 2 ^ 64 }, ?_, hmod, ?_, ?_, ?_⟩
    · rw [Mp4Segment.allocBuffer, if_pos (by omega), grow_ok hused]
      rfl
    · exact hle.trans_eq (grown_length hg hused).symm
    · exact (grown_length hg hused).trans_lt (by omega)
    · refine List.take_left' ?_
      rw [List.length_take, Nat.min_eq_left hg.used_le]

theorem fits_of_inside (hg : Proper g) (halloc : g.allocBuffer s = .ok (g', v)) (hoffset : v.offset = g.usedBytes)
    (hsize : v.size = s) (hinside : v.Inside g') : Fits g s := by
  have hlt := hg.length_lt
  unfold View.Inside at hinside
  rw [hoffset, hsize] at hinside
  rw [Mp4Segment.allocBuffer] at halloc
  split at halloc
  · next hgrow =>
    by_cases hused : g.usedBytes ≤ g.buf.length * 2 % 2 ^ 64
    · rw [grow_ok hused] at halloc
      cases halloc
      exact .inr (hinside.trans_eq (grown_length hg hused))
    · rw [Mp4Segment.grow, if_neg hused] at halloc
      cases halloc
  · next hroom =>
    cases halloc
    dsimp only at hinside
    left
    omega

theorem write_usedBuf (g : Mp4Segment) (v : View) {data : Bytes} (hused : g.usedBytes = v.offset + data.length)
    (hinside : v.offset + data.length ≤ g.buf.length) :
    (g.write v data).usedBuf = g.buf.take v.offset ++ data := by
  have hlen : (g.buf.take v.offset ++ data).length = g.usedBytes := by
    rw [List.length_append, List.length_take, Nat.min_eq_left (by omega), hused]
  exact List.take_left' hlen

theorem write_length (g : Mp4Segment) (v : View) (data : Bytes)
    (hinside : v.offset + data.length ≤ g.buf.length) : (g.write v data).buf.length = g.buf.length := by
  rw [Mp4Segment.write, List.length_append, List.length_append, List.length_take, List.length_drop,
    Nat.min_eq_left (by omega)]
  omega

end Step

theorem allInside_iff {g : Mp4Segment} (hg : Proper g) (rs : List Request) : AllInside g rs ↔ AllFit g rs := by
  induction rs generalizing g with
  | nil => exact Iff.rfl
  | cons r rs ih =>
    have hstep {g' : Mp4Segment} (hused : g'.usedBytes = g.usedBytes + r.val.length)
        (hinside : g.usedBytes + r.val.length ≤ g'.buf.length) (hlt : g'.buf.length < 2 ^ 64) :
        Proper (g'.write ⟨g.usedBytes, r.val.length⟩ r.val) := by
      have hlen := write_length g' ⟨g.usedBytes, r.val.length⟩ r.val hinside
      exact ⟨hused.trans_le (hinside.trans_eq hlen.symm), hlen.trans_lt hlt⟩
    constructor
    · rintro ⟨g₁, v₁, halloc, hoffset, hsize, hused, hinside, hkept, hwritten, hrest⟩
      have hfit := fits_of_inside hg halloc hoffset hsize hinside
      obtain ⟨g', halloc', hused', hinside', hlt', -⟩ := allocBuffer_fits hg hfit
      rw [halloc] at halloc'
      cases halloc'
      refine ⟨hfit, fun g₂ v₂ h₂ ↦ ?_⟩
      rw [halloc] at h₂
      cases h₂
      exact (ih (hstep hused' hinside' hlt')).mp hrest
    · rintro ⟨hfit, hrest⟩
      obtain ⟨g', halloc, hused, hinside, hlt, hkept⟩ := allocBuffer_fits hg hfit
      refine ⟨g', _, halloc, rfl, rfl, hused, hinside, hkept, ?_, ?_⟩
      · rw [write_usedBuf g' _ hused hinside, ← hkept]
      · exact (ih (hstep hused hinside hlt)).mpr (hrest g' _ halloc)

theorem new_proper : Proper .new := by
  constructor
  · exact Nat.zero_le _
  · rw [Mp4Segment.new, List.length_replicate]
    decide

/-- The views of a new segment stay inside just as long as no size is more than what doubling
the buffer gives. -/
theorem allocBuffer_inside_iff (rs : List Request) :
    AllInside .new rs ↔ AllFit .new rs :=
  allInside_iff new_proper rs

def zeros (n : ℕ) (h : n < 2 ^ 64) : Request := ⟨List.replicate n 0, by rwa [List.length_replicate]⟩

/-- Three megabytes do not fit in a new segment. -/
theorem largeMdat_outside : ¬ AllInside .new [zeros (3 * 2 ^ 20) (by decide)] := by
  intro h
  have hfit := ((allInside_iff new_proper _).mp h).1
  have hlen : Mp4Segment.new.buf.length = 2 ^ 20 := List.length_replicate
  rw [Fits, hlen] at hfit
  have hsize : (zeros (3 * 2 ^ 20) (by decide)).val.length = 3 * 2 ^ 20 := List.length_replicate
  rw [hsize, show Mp4Segment.new.usedBytes = 0 from rfl] at hfit
  omega

end MmsServer.M4s.SegmentBuffer
