import OtelNetwork.ElementQueue.System
import OtelNetwork.ElementQueue.Proofs.Offsets

/-!
# Elements laid out in the ring and the buffer

On unwrapped counters the elements of a queue lie one after another: from byte count `b`, an
element `x` starts at `place L b (align x.length)`, and the next one where its aligned length
ends (`chainEnd`). The data buffer holds them when each is found at its masked start without
running past the end of the buffer (`Stored`), and the element ring when each length is at its
masked element count (`Ring`). Filling the free space after the elements, or setting the ring
entry after them, within one buffer or one ring of where they start, keeps both (`Stored.fill`,
`Ring.update`).
-/

namespace OtelNetwork.ElementQueue

open EqSystem

/-- Two counts closer than `L` fall on distinct positions modulo `L`. -/
theorem mod_ne_of_lt {L lo u v : Nat} (h₁ : lo ≤ u) (h₂ : u < v) (h₃ : v < lo + L) :
    u % L ≠ v % L := by
  intro h
  have hdvd := Nat.dvd_of_mod_eq_zero (Nat.sub_mod_eq_zero_of_mod_eq h.symm)
  have := Nat.le_of_dvd (by omega) hdvd
  omega

theorem mod_add_of_lt {L a j : Nat} (h : a % L + j < L) : (a + j) % L = a % L + j := by
  rw [Nat.add_mod, Nat.mod_eq_of_lt (show j < L by omega), Nat.mod_eq_of_lt h]

section Layout

variable {L N : Nat}

/-- The byte count after the elements, laid out from byte count `b`. -/
def chainEnd (L : Nat) (b : Nat) : List (List UInt8) → Nat
  | [] => b
  | x :: xs => chainEnd L (place L b (align x.length) + align x.length) xs

@[simp] theorem chainEnd_nil (b : Nat) : chainEnd L b [] = b := rfl

theorem chainEnd_cons (b : Nat) (x : List UInt8) (xs : List (List UInt8)) :
    chainEnd L b (x :: xs) = chainEnd L (place L b (align x.length) + align x.length) xs := rfl

theorem chainEnd_append (b : Nat) (xs ys : List (List UInt8)) :
    chainEnd L b (xs ++ ys) = chainEnd L (chainEnd L b xs) ys := by
  induction xs generalizing b with
  | nil => rfl
  | cons x xs ih => exact ih _

theorem chainEnd_snoc (b : Nat) (xs : List (List UInt8)) (x : List UInt8) :
    chainEnd L b (xs ++ [x]) = place L (chainEnd L b xs) (align x.length) + align x.length := by
  rw [chainEnd_append]
  rfl

theorem le_chainEnd (b : Nat) (xs : List (List UInt8)) : b ≤ chainEnd L b xs := by
  induction xs generalizing b with
  | nil => exact Nat.le_refl b
  | cons x xs ih => exact (le_place L b _).trans ((Nat.le_add_right _ _).trans (ih _))

theorem chainEnd_take_succ (b : Nat) {xs : List (List UInt8)} {i : Nat} (hi : i < xs.length) :
    chainEnd L b (xs.take (i + 1)) =
      place L (chainEnd L b (xs.take i)) (align xs[i].length) + align xs[i].length := by
  rw [List.take_succ_eq_append_getElem hi, chainEnd_snoc]

/-- The data buffer holds the elements laid out from byte count `b`: each at its masked start,
    without running past the end of the buffer. -/
def Stored (L : Nat) (data : Nat → UInt8) : Nat → List (List UInt8) → Prop
  | _, [] => True
  | b, x :: xs =>
    place L b (align x.length) % L + x.length ≤ L ∧
      dataSlice data (place L b (align x.length) % L) x.length = x ∧
      Stored L data (place L b (align x.length) + align x.length) xs

/-- The element ring holds the lengths of the elements from element count `e`, each at its
    masked count. -/
def Ring (N : Nat) (elems : Nat → UInt32) : Nat → List (List UInt8) → Prop
  | _, [] => True
  | e, x :: xs => elems (e % N) = UInt32.ofNat x.length ∧ Ring N elems (e + 1) xs

variable {data : Nat → UInt8} {elems : Nat → UInt32}

theorem stored_append (b : Nat) (xs ys : List (List UInt8)) :
    Stored L data b (xs ++ ys) ↔ Stored L data b xs ∧ Stored L data (chainEnd L b xs) ys := by
  induction xs generalizing b with
  | nil => simp [Stored]
  | cons x xs ih => simp only [List.cons_append, Stored, ih, chainEnd_cons, and_assoc]

theorem ring_append (e : Nat) (xs ys : List (List UInt8)) :
    Ring N elems e (xs ++ ys) ↔ Ring N elems e xs ∧ Ring N elems (e + xs.length) ys := by
  induction xs generalizing e with
  | nil => simp [Ring]
  | cons x xs ih =>
    simp only [List.cons_append, Ring, ih, List.length_cons, and_assoc]
    rw [show e + 1 + xs.length = e + (xs.length + 1) by omega]

/-- The element after the first `i`: its masked start and its bytes. -/
theorem Stored.getElem {b : Nat} {xs : List (List UInt8)} (h : Stored L data b xs) {i : Nat}
    (hi : i < xs.length) :
    place L (chainEnd L b (xs.take i)) (align xs[i].length) % L + xs[i].length ≤ L ∧
      dataSlice data (place L (chainEnd L b (xs.take i)) (align xs[i].length) % L)
        xs[i].length = xs[i] := by
  rw [← List.take_append_drop i xs, stored_append, List.drop_eq_getElem_cons hi] at h
  exact ⟨h.2.1, h.2.2.1⟩

theorem Ring.getElem {e : Nat} {xs : List (List UInt8)} (h : Ring N elems e xs) {i : Nat}
    (hi : i < xs.length) : elems ((e + i) % N) = UInt32.ofNat xs[i].length := by
  rw [← List.take_append_drop i xs, ring_append, List.drop_eq_getElem_cons hi,
    List.length_take_of_le hi.le] at h
  exact h.2.1

theorem chainEnd_take_drop (b r : Nat) (xs : List (List UInt8)) :
    chainEnd L (chainEnd L b (xs.take r)) (xs.drop r) = chainEnd L b xs := by
  rw [← chainEnd_append, List.take_append_drop]

/-- Past the first `r` elements, the rest are laid out from where those end. -/
theorem Stored.drop {b : Nat} {xs : List (List UInt8)} (h : Stored L data b xs) (r : Nat) :
    Stored L data (chainEnd L b (xs.take r)) (xs.drop r) := by
  rw [← List.take_append_drop r xs, stored_append] at h
  exact h.2

theorem Ring.drop {e : Nat} {xs : List (List UInt8)} (h : Ring N elems e xs) {r : Nat}
    (hr : r ≤ xs.length) : Ring N elems (e + r) (xs.drop r) := by
  rw [← List.take_append_drop r xs, ring_append, List.length_take_of_le hr] at h
  exact h.2

theorem dataSlice_congr {d₁ d₂ : Nat → UInt8} {start n : Nat}
    (h : ∀ j < n, d₁ (start + j) = d₂ (start + j)) : dataSlice d₁ start n = dataSlice d₂ start n :=
  List.map_congr_left fun j hj => h j (List.mem_range.mp hj)

@[simp] theorem length_dataSlice (start n : Nat) : (dataSlice data start n).length = n := by
  simp [dataSlice]

/-- Filling the free space after the elements, within one buffer of `lo`, keeps them. -/
theorem Stored.fill {lo b : Nat} {xs : List (List UInt8)} (h : Stored L data b xs) (hlo : lo ≤ b)
    {p n : Nat} (hp : chainEnd L b xs ≤ p) (hpn : p + n ≤ lo + L) (hwrap : p % L + n ≤ L)
    (fill : Nat → UInt8) : Stored L (fillSlice data (p % L) n fill) b xs := by
  induction xs generalizing b with
  | nil => trivial
  | cons x xs ih =>
    obtain ⟨hfit, hx, hrest⟩ := h
    have hq := le_place L b (align x.length)
    have hend := (le_chainEnd _ xs).trans (chainEnd_cons b x xs ▸ hp)
    have hlen := len_le_align x.length
    refine ⟨hfit, (dataSlice_congr fun j hj => ?_).trans hx, ih hrest (by omega) hp⟩
    -- the element's bytes and the filled ones are distinct counts less than `L` apart
    simp only [fillSlice, ite_eq_right_iff, and_imp]
    intro hlo' hhi
    exfalso
    have hne := @mod_ne_of_lt L lo (place L b (align x.length) + j)
      (p + (place L b (align x.length) % L + j - p % L)) (by omega) (by omega) (by omega)
    rw [mod_add_of_lt (by omega), mod_add_of_lt (by omega)] at hne
    omega

/-- Setting the ring entry after the elements, within one ring of `lo`, keeps them. -/
theorem Ring.update {lo e : Nat} {xs : List (List UInt8)} (h : Ring N elems e xs) (hlo : lo ≤ e)
    {m : Nat} (hm : e + xs.length ≤ m) (hmN : m < lo + N) (v : UInt32) :
    Ring N (Function.update elems (m % N) v) e xs := by
  induction xs generalizing e with
  | nil => trivial
  | cons x xs ih =>
    obtain ⟨hx, hrest⟩ := h
    simp only [List.length_cons] at hm
    refine ⟨?_, ih hrest (by omega) (by omega)⟩
    rw [Function.update_of_ne (mod_ne_of_lt hlo (by omega) hmN)]
    exact hx

end Layout

end OtelNetwork.ElementQueue
