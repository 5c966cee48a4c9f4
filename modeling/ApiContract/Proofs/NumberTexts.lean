import ApiContract.Proofs.CompletedTexts
import ApiContract.Json.Text

/-!
# The characters of written numbers

Whatever layout a number is written in, its text holds digits, signs, points and the mark of an
exponent, and no other characters.
-/

namespace ApiContract

open Temporal

def inNumber (c : Char) : Bool := c.isDigit || c == '-' || c == '+' || c == '.' || c == 'e'

theorem inNumber_of_mem_digitsOfNat {n : Nat} {c : Char} (h : c ∈ Decimal.digitsOfNat n) :
    inNumber c = true := by
  simp [inNumber, isDigit_of_mem_digitsOfNat h]

namespace Binary64

theorem inNumber_of_mem_zeros {n : Nat} {c : Char} (h : c ∈ zeros n) : inNumber c = true := by
  obtain ⟨-, rfl⟩ := List.mem_replicate.mp h
  rfl

theorem inNumber_of_mem_shortest {x : Binary64} {c : Char} (h : c ∈ x.shortest.digits) :
    inNumber c = true := by
  unfold shortest at h
  split at h
  · obtain rfl := List.mem_singleton.mp h
    rfl
  · simp only [List.mem_reverse] at h
    exact inNumber_of_mem_digitsOfNat (List.mem_reverse.mp (List.dropWhile_subset _ h))

variable {d : Decimal} {c : Char}

/-- Positional digits bring in zeros and a point. -/
theorem inNumber_of_mem_positional {places : Nat} (hd : ∀ c ∈ d.digits, inNumber c = true)
    (h : c ∈ positional d places) : inNumber c = true := by
  unfold positional at h
  split at h
  · simp only [List.cons_append, List.mem_cons, List.mem_append] at h
    rcases h with rfl | rfl | h | h
    · rfl
    · rfl
    · exact inNumber_of_mem_zeros h
    · exact hd c h
  · have whole : ∀ n m, c ∈ d.digits.take n ++ zeros m → inNumber c = true := fun n m hw =>
      (List.mem_append.mp hw).elim (fun ht => hd c (List.mem_of_mem_take ht)) inNumber_of_mem_zeros
    simp only at h
    split at h
    · exact whole _ _ h
    · rcases List.mem_append.mp h with h | h
      · exact whole _ _ h
      · rcases List.mem_cons.mp h with rfl | h
        · rfl
        · rcases List.mem_append.mp h with h | h
          · exact hd c (List.mem_of_mem_drop h)
          · exact inNumber_of_mem_zeros h

/-- Scientific digits bring in a point, the mark and a sign. -/
theorem inNumber_of_mem_scientific (hd : ∀ c ∈ d.digits, inNumber c = true)
    (h : c ∈ scientific d) : inNumber c = true := by
  unfold scientific at h
  rcases List.mem_append.mp h with h | h
  · split at h
    · rename_i digits
      rw [digits] at hd
      rcases List.mem_cons.mp h with rfl | h
      · exact hd c List.mem_cons_self
      · rcases List.mem_cons.mp h with rfl | h
        · rfl
        · exact hd c (List.mem_cons_of_mem _ h)
    · exact hd c h
  · simp only [List.mem_cons] at h
    rcases h with rfl | rfl | h
    · rfl
    · split <;> rfl
    · exact inNumber_of_mem_digitsOfNat h

theorem inNumber_of_mem_text {x : Binary64} (h : c ∈ x.text.toList) : inNumber c = true := by
  have hd : ∀ c ∈ x.shortest.digits, inNumber c = true := fun _ => inNumber_of_mem_shortest
  have digits : ∀ c ∈ (if -5 < x.shortest.point ∧ x.shortest.point ≤ 16 then
      positional x.shortest 1 else scientific x.shortest), inNumber c = true := by
    intro c hc
    split at hc
    · exact inNumber_of_mem_positional hd hc
    · exact inNumber_of_mem_scientific hd hc
  unfold text signed at h
  rw [String.toList_ofList] at h
  split at h
  · rcases List.mem_cons.mp h with rfl | h
    · rfl
    · exact digits c h
  · exact digits c h

end Binary64

theorem inNumber_of_mem_intText {n : Int} {c : Char} (h : c ∈ (Json.intText n).toList) :
    inNumber c = true := by
  simp only [Json.intText, String.toList_ofList] at h
  split at h
  · rcases List.mem_cons.mp h with rfl | h
    · rfl
    · exact inNumber_of_mem_digitsOfNat h
  · exact inNumber_of_mem_digitsOfNat h

end ApiContract
