import PushGate.Proofs.Signature.Acceptance

/-!
# Tampering

The three texts that a signature covers are sorted and joined before they are hashed, and joining
forgets where one text ends and the next begins.  A text in which one character has been replaced may
also take another place in the order.  The characters that are hashed are still those of the three
texts, in some order, and a replaced character changes how often it occurs among them.  Since a text
can be told from its bytes, the bytes that are hashed change with it.

Bytes alone would not do for this: U+1001 and U+1040 are written with the same three bytes in
different orders.

**Results.**
* `exists_perm_material`: what is hashed is a rearrangement of the characters of the three texts.
* `Tampered.material_ne`: after one replacement something else is hashed.
* `check_tampered`: what a signature is worth after one replacement.
-/

namespace PushGate
namespace Signature

/-- One character of the text `s` has been replaced by a different one in `t`. -/
def Replaced (s t : String) : Prop :=
  ∃ before c d after,
    c ≠ d ∧ s.toList = before ++ c :: after ∧ t.toList = before ++ d :: after

/-- One character of exactly one of the token, the timestamp and the nonce has been replaced. -/
inductive Tampered (token timestamp nonce : String) : String → String → String → Prop
  | token
      {token' : String}
      (replaced : Replaced token token') :
      Tampered token timestamp nonce token' timestamp nonce
  | timestamp
      {timestamp' : String}
      (replaced : Replaced timestamp timestamp') :
      Tampered token timestamp nonce token timestamp' nonce
  | nonce
      {nonce' : String}
      (replaced : Replaced nonce nonce') :
      Tampered token timestamp nonce token timestamp nonce'

section Characters

variable {s t token timestamp nonce token' timestamp' nonce' : String}

/-- The character that has been replaced occurs once less. -/
theorem Replaced.count
    (h : Replaced s t) :
    ∃ c, s.toList.count c = t.toList.count c + 1 := by
  obtain ⟨before, c, d, after, hne, hs, ht⟩ := h
  refine ⟨c, ?_⟩
  rw [hs, ht, List.count_append, List.count_append, List.count_cons_self,
    List.count_cons_of_ne hne.symm]
  omega

theorem Replaced.ne
    (h : Replaced s t) :
    s ≠ t := by
  rintro rfl
  obtain ⟨c, hcount⟩ := h.count
  omega

/-- What is hashed is a rearrangement of the characters of the three texts. -/
theorem exists_perm_material
    (token timestamp nonce : String) :
    ∃ text, material token timestamp nonce = Utf8.encode text ∧
      text.Perm ([token, timestamp, nonce].flatMap String.toList) := by
  let sorted := [token, timestamp, nonce].mergeSort fun s t =>
    decide (Utf8.ofString s ≤ Utf8.ofString t)
  have hsorted : sorted.map Utf8.ofString =
      ([token, timestamp, nonce].map Utf8.ofString).mergeSort fun s t => decide (s ≤ t) :=
    List.map_mergeSort fun _ _ _ _ => rfl
  refine ⟨sorted.flatMap String.toList, ?_, ?_⟩
  · rw [material, ← hsorted, ← List.flatMap_def, Utf8.encode, List.flatMap_assoc]
    rfl
  · exact (List.mergeSort_perm _ _).flatMap_right _

/-- Whichever of the three texts it was in, the character occurs once less among them all. -/
theorem Tampered.count
    (h : Tampered token timestamp nonce token' timestamp' nonce') :
    ∃ c, ([token, timestamp, nonce].flatMap String.toList).count c =
      ([token', timestamp', nonce'].flatMap String.toList).count c + 1 := by
  cases h with
  | token replaced | timestamp replaced | nonce replaced =>
      obtain ⟨c, hcount⟩ := replaced.count
      refine ⟨c, ?_⟩
      simp only [List.flatMap_cons, List.flatMap_nil, List.count_append, List.count_nil]
      omega

/-- After one replacement something else is hashed. -/
theorem Tampered.material_ne
    (h : Tampered token timestamp nonce token' timestamp' nonce') :
    material token timestamp nonce ≠ material token' timestamp' nonce' := by
  intro hsame
  obtain ⟨text, htext, hperm⟩ := exists_perm_material token timestamp nonce
  obtain ⟨text', htext', hperm'⟩ := exists_perm_material token' timestamp' nonce'
  rw [htext, htext'] at hsame
  obtain rfl := Utf8.encode_injective hsame
  obtain ⟨c, hcount⟩ := h.count
  have hsame : ([token, timestamp, nonce].flatMap String.toList).count c =
      ([token', timestamp', nonce'].flatMap String.toList).count c :=
    (hperm.count_eq c).symm.trans (hperm'.count_eq c)
  omega

/-- Two signatures are equal exactly if the digests are. -/
theorem compute_eq_compute_iff :
    compute token timestamp nonce = compute token' timestamp' nonce' ↔
      Sha1.digest (material token timestamp nonce) =
        Sha1.digest (material token' timestamp' nonce') := by
  constructor
  · intro h
    exact Hexadecimal.ofBytes_injective (String.ofList_injective h)
  · intro h
    rw [compute, compute, h]

end Characters

/-- **Tampering.**  Where one character of the token, the timestamp or the nonce has been replaced,
other bytes are hashed, and the signature is accepted only if the digest is that of both.  Where one
character of the signature has been replaced, it is refused. -/
theorem check_tampered
    (token timestamp nonce : String) :
    (∀ token' timestamp' nonce' : String,
      Tampered token timestamp nonce token' timestamp' nonce' →
      material token timestamp nonce ≠ material token' timestamp' nonce' ∧
      ((checkSignature (compute token timestamp nonce) timestamp' nonce' token').1 = true ↔
        Sha1.digest (material token timestamp nonce) =
          Sha1.digest (material token' timestamp' nonce'))) ∧
    ∀ signature : String,
      Replaced (compute token timestamp nonce) signature →
      (checkSignature signature timestamp nonce token).1 = false := by
  constructor
  · intro token' timestamp' nonce' htampered
    refine ⟨htampered.material_ne, ?_⟩
    rw [checkSignature_fst_eq_true_iff]
    exact compute_eq_compute_iff
  · intro signature hreplaced
    rw [← Bool.not_eq_true, checkSignature_fst_eq_true_iff]
    exact hreplaced.ne.symm

/-- A nonce that comes last but one in the order and first after the replacement, and a signature with
another first digit. -/
theorem check_tampered_reordered :
    Tampered "mytoken" "1400000000" "987654" "mytoken" "1400000000" "087654" ∧
    material "mytoken" "1400000000" "987654" ≠ material "mytoken" "1400000000" "087654" ∧
    Replaced (compute "mytoken" "1400000000" "987654")
      "09d3a31d2fb2a20cb3d1e562314f6ccfddc653da" ∧
    (checkSignature "09d3a31d2fb2a20cb3d1e562314f6ccfddc653da"
      "1400000000" "987654" "mytoken").1 = false := by
  have hsorting : IsSorting ["mytoken", "1400000000", "987654"]
      (["1400000000", "987654", "mytoken"].map Utf8.ofString) := by
    decide +kernel
  have hcompute : compute "mytoken" "1400000000" "987654" =
      "d9d3a31d2fb2a20cb3d1e562314f6ccfddc653da" := by
    rw [compute_eq hsorting]
    decide +kernel
  have hnonce : Replaced "987654" "087654" :=
    ⟨[], '9', '0', "87654".toList, by decide, rfl, rfl⟩
  have hsignature : Replaced (compute "mytoken" "1400000000" "987654")
      "09d3a31d2fb2a20cb3d1e562314f6ccfddc653da" := by
    rw [hcompute]
    exact ⟨[], 'd', '0', "9d3a31d2fb2a20cb3d1e562314f6ccfddc653da".toList, by decide, rfl, rfl⟩
  obtain ⟨htampered, hreplaced⟩ := check_tampered "mytoken" "1400000000" "987654"
  exact ⟨.nonce hnonce, (htampered _ _ _ (.nonce hnonce)).1, hsignature, hreplaced _ hsignature⟩

end Signature
end PushGate
