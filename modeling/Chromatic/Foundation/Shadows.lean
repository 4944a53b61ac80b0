import Mathlib.Data.Set.Basic
import Chromatic.Foundation.Memory

/-!
# Copies that are edited and written back

A region is copied to another place, the copy is edited, and the bytes of the copy are written
over the region. Beside it runs a memory in which the same edits are made in place.

§1 a copy and its original · §2 edits · §3 writing back.
-/

namespace Foundation

/-! ## §1  A copy and its original -/

/-- The `n` bytes of `m` from `s` on are those of `m'` from `a` on. Everything else is the same in
both, apart from `U`. -/
structure Shadows (s a : Addr) (n : ℕ) (U : Set Addr) (m m' : Memory) : Prop where
  inside : ∀ k < n, m (s + BitVec.ofNat 64 k) = m' (a + BitVec.ofNat 64 k)
  outside : ∀ x, ¬ InRegion s n x → ¬ InRegion a n x → x ∉ U → m x = m' x

section Shadows

variable {s a b : Addr} {n j l : ℕ} {U : Set Addr} {m m' : Memory} {data : List Byte}

/-- No byte of the region is in `U`. -/
def Clear (a : Addr) (n : ℕ) (U : Set Addr) : Prop := ∀ x, InRegion a n x → x ∉ U

theorem Shadows.of_copy (hagree : ∀ x, x ∉ U → m x = m' x) (hn : n ≤ 2 ^ 64) (ha : Clear a n U) :
    Shadows s a n U (writeBytes m s (readBytes m a n)) m' where
  inside k hk := by
    have hoff : offset s (s + BitVec.ofNat 64 k) = k := offset_add s (hk.trans_le hn)
    rw [writeBytes, hoff, readBytes, List.getElem?_map, List.getElem?_range hk]
    exact hagree _ (ha _ (inRegion_of_lt hk))
  outside x hs _ hx := by
    rw [writeBytes_outside (by rwa [length_readBytes])]
    exact hagree x hx

/-! ## §2  Edits -/

theorem inRegion_of_part {x : Addr} (hpart : j + l ≤ n)
    (hx : InRegion (a + BitVec.ofNat 64 j) l x) : InRegion a n x := by
  rw [← add_offset (a + BitVec.ofNat 64 j) x, BitVec.add_assoc, ← BitVec.ofNat_add]
  apply inRegion_of_lt
  unfold InRegion at hx
  omega

/-- The edit goes to the same place of both. -/
theorem Shadows.write (h : Shadows s a n U m m') (hpart : j + data.length ≤ n) :
    Shadows s a n U (writeBytes m (s + BitVec.ofNat 64 j) data)
      (writeBytes m' (a + BitVec.ofNat 64 j) data) where
  inside k hk := by
    have hoff : offset (s + BitVec.ofNat 64 j) (s + BitVec.ofNat 64 k) =
        offset (a + BitVec.ofNat 64 j) (a + BitVec.ofNat 64 k) := by
      unfold offset
      bv_omega
    rw [writeBytes, writeBytes, hoff, h.inside k hk]
  outside x hs ha hx := by
    rw [writeBytes_outside fun hin => hs (inRegion_of_part hpart hin),
      writeBytes_outside fun hin => ha (inRegion_of_part hpart hin)]
    exact h.outside x hs ha hx

theorem Shadows.readBytes_inside (h : Shadows s a n U m m') (hpart : j + l ≤ n) :
    readBytes m (s + BitVec.ofNat 64 j) l = readBytes m' (a + BitVec.ofNat 64 j) l := by
  refine List.map_congr_left fun k hk => ?_
  have hlt := List.mem_range.mp hk
  rw [BitVec.add_assoc, BitVec.add_assoc, ← BitVec.ofNat_add]
  exact h.inside _ (by omega)

theorem Shadows.readBytes_outside (h : Shadows s a n U m m') (hs : ¬ Overlap b l s n)
    (ha : ¬ Overlap b l a n) (hb : Clear b l U) : readBytes m b l = readBytes m' b l := by
  refine List.map_congr_left fun k hk => ?_
  have hin : InRegion b l (b + BitVec.ofNat 64 k) := inRegion_of_lt (List.mem_range.mp hk)
  exact h.outside _ (fun hx => hs ⟨_, hin, hx⟩) (fun hx => ha ⟨_, hin, hx⟩) (hb _ hin)

/-! ## §3  Writing back -/

/-- **The result is that of the edits in place**, apart from the copy. -/
theorem Shadows.write_back (h : Shadows s a n U m m') {x : Addr} (hs : ¬ InRegion s n x)
    (hx : x ∉ U) : writeBytes m a (readBytes m s n) x = m' x := by
  by_cases hin : InRegion a n x
  · have hk : offset a x < n := hin
    rw [writeBytes, readBytes, List.getElem?_map, List.getElem?_range hk]
    show m (s + BitVec.ofNat 64 (offset a x)) = m' x
    rw [h.inside _ hk, add_offset]
  · rw [writeBytes_outside (by rwa [length_readBytes])]
    exact h.outside x hs hin hx

end Shadows

end Foundation
