import Mathlib.Tactic

/-!
# Hashing by blocks

A compression function is folded over the blocks of a message. An incremental hasher
keeps the state after some of the blocks and a buffer with what follows them, which may
be a whole block that is still to be compressed. How the message was cut does not show.
-/
namespace ServingObservatory.BlockHashing
variable {σ α : Type*} (n : ℕ) (compress : σ → List α → σ)

/-- Compresses the whole blocks of a message one after the other. -/
def foldBlocks (s : σ) (m : List α) : σ :=
  (List.range (m.length / n)).foldl (fun s i => compress s ((m.drop (n * i)).take n)) s

variable {n}

@[simp] theorem foldBlocks_nil (s : σ) : foldBlocks n compress s [] = s := by
  simp [foldBlocks]

/-- A further block is compressed last. -/
theorem foldBlocks_append (hn : 0 < n) (s : σ) {p b : List α} (hp : n ∣ p.length)
    (hb : b.length = n) :
    foldBlocks n compress s (p ++ b) = compress (foldBlocks n compress s p) b := by
  obtain ⟨k, hk⟩ := hp
  have hold : p.length / n = k := by rw [hk, Nat.mul_div_cancel_left k hn]
  have hnew : (p ++ b).length / n = k + 1 := by
    rw [List.length_append, hk, hb, ← Nat.mul_succ, Nat.mul_div_cancel_left _ hn]
  have hlast : ((p ++ b).drop (n * k)).take n = b := by
    rw [← hk, List.drop_left, ← hb, List.take_length]
  have hfirst : (List.range k).foldl (fun s i => compress s (((p ++ b).drop (n * i)).take n)) s =
      foldBlocks n compress s p := by
    rw [foldBlocks, hold]
    refine List.foldl_ext _ _ s fun s' i hi => ?_
    have hlt : n * i + n ≤ p.length := by
      rw [hk, ← Nat.mul_succ]
      exact Nat.mul_le_mul_left n (List.mem_range.mp hi)
    rw [List.drop_append_of_le_length (by omega), List.take_append_of_le_length]
    rw [List.length_drop]
    omega
  rw [foldBlocks, hnew, List.range_succ, List.foldl_append, hfirst, List.foldl_cons,
    List.foldl_nil, hlast]

/-- The state and the buffer of a hasher that has taken a message. -/
structure Absorbed (init : σ) (m : List α) (s : σ) (buf : List α) : Prop where
  split : ∃ p, p ++ buf = m ∧ n ∣ p.length ∧ s = foldBlocks n compress init p
  fits : buf.length ≤ n

section Steps
variable {compress} {init s : σ} {m buf d : List α}

theorem absorbed_nil : Absorbed (n := n) compress init [] init [] where
  split := ⟨[], rfl, dvd_zero n, (foldBlocks_nil compress init).symm⟩
  fits := Nat.zero_le n

/-- A full buffer is compressed. -/
theorem Absorbed.flush (h : Absorbed (n := n) compress init m s buf) (hn : 0 < n)
    (hfull : buf.length = n) : Absorbed (n := n) compress init m (compress s buf) [] where
  split := by
    obtain ⟨p, rfl, hdvd, rfl⟩ := h.split
    refine ⟨p ++ buf, List.append_nil _, ?_, (foldBlocks_append compress hn init hdvd hfull).symm⟩
    rw [List.length_append, hfull]
    exact (Nat.dvd_add_self_right).mpr hdvd
  fits := Nat.zero_le n

/-- Bytes that still fit are appended to the buffer. -/
theorem Absorbed.append (h : Absorbed (n := n) compress init m s buf)
    (hfits : buf.length + d.length ≤ n) :
    Absorbed (n := n) compress init (m ++ d) s (buf ++ d) where
  split := by
    obtain ⟨p, rfl, hdvd, rfl⟩ := h.split
    exact ⟨p, (List.append_assoc p buf d).symm, hdvd, rfl⟩
  fits := by rwa [List.length_append]

/-- The length of the buffer is the length of the message up to whole blocks. -/
theorem Absorbed.length_mod (h : Absorbed (n := n) compress init m s buf) :
    m.length % n = buf.length % n := by
  obtain ⟨p, rfl, hdvd, -⟩ := h.split
  rw [List.length_append, Nat.add_mod, Nat.mod_eq_zero_of_dvd hdvd, Nat.zero_add, Nat.mod_mod]

/-- A message of whole blocks leaves nothing but a block to compress. -/
theorem Absorbed.compress_eq (h : Absorbed (n := n) compress init m s buf) (hn : 0 < n)
    (hfull : buf.length = n) : compress s buf = foldBlocks n compress init m := by
  obtain ⟨p, hp, -, hs⟩ := (h.flush hn hfull).split
  rw [hs, ← hp, List.append_nil]

end Steps
end ServingObservatory.BlockHashing
