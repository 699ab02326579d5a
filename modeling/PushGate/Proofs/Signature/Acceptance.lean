import PushGate.Authentication

/-!
# The signature that is accepted

For three texts there is one signature, and the check accepts this one and no other.  It is said here
without the algorithm: the texts, as bytes, are put in order; what is in order and has the same parts
is one list, so it does not matter how it was sorted, whether some of the texts are equal, empty or
beginnings of others, nor which of them is called the token.

**Results.**
* `IsSorting.unique`: there is one way to put texts in order.
* `material_eq`, `compute_eq`: what is hashed is the ordered texts, joined.
* `check_accepts_one`: which signature is accepted, and what is reported of others.
-/

namespace PushGate
namespace Signature

/-- The bytes of texts, in order. -/
structure IsSorting
    (texts : List String)
    (parts : List Bytes) : Prop where
  perm : parts.Perm (texts.map Utf8.ofString)
  ordered : parts.Pairwise (· ≤ ·)

section Sorting

variable {texts texts' : List String} {parts parts' : List Bytes}

instance : Decidable (IsSorting texts parts) :=
  decidable_of_iff (parts.Perm (texts.map Utf8.ofString) ∧ parts.Pairwise (· ≤ ·))
    ⟨fun ⟨perm, ordered⟩ => ⟨perm, ordered⟩, fun ⟨perm, ordered⟩ => ⟨perm, ordered⟩⟩

/-- There is one way to put texts in order. -/
theorem IsSorting.unique
    (h : IsSorting texts parts)
    (h' : IsSorting texts parts') :
    parts = parts' := by
  refine List.Perm.eq_of_pairwise ?_ h.ordered h'.ordered (h.perm.trans h'.perm.symm)
  intro s t _ _ hst hts
  exact List.le_antisymm hst hts

/-- Texts are put in the same order wherever they stood before. -/
theorem IsSorting.of_perm
    (h : IsSorting texts parts)
    (hperm : texts.Perm texts') :
    IsSorting texts' parts :=
  ⟨h.perm.trans (hperm.map _), h.ordered⟩

theorem isSorting_mergeSort (texts : List String) :
    IsSorting texts ((texts.map Utf8.ofString).mergeSort fun s t => decide (s ≤ t)) := by
  refine ⟨List.mergeSort_perm _ _, ?_⟩
  have hsorted := @List.pairwise_mergeSort Bytes (fun s t => decide (s ≤ t))
    (fun s t u hst htu => ?_) (fun s t => ?_) (texts.map Utf8.ofString)
  · exact hsorted.imp fun h => of_decide_eq_true h
  · exact decide_eq_true (List.le_trans (of_decide_eq_true hst) (of_decide_eq_true htu))
  · rw [Bool.or_eq_true, decide_eq_true_eq, decide_eq_true_eq]
    exact List.le_total s t

end Sorting

section Material

variable {token timestamp nonce token' timestamp' nonce' : String} {parts : List Bytes}

/-- What is hashed is the ordered texts, joined. -/
theorem material_eq
    (h : IsSorting [token, timestamp, nonce] parts) :
    material token timestamp nonce = parts.flatten := by
  rw [material, h.unique (isSorting_mergeSort _)]

/-- The signature, from the ordered texts. -/
theorem compute_eq
    (h : IsSorting [token, timestamp, nonce] parts) :
    compute token timestamp nonce =
      String.ofList (Hexadecimal.ofBytes (Sha1.digest parts.flatten)) := by
  rw [compute, material_eq h]

/-- It does not matter which text is the token. -/
theorem material_of_perm
    (h : [token', timestamp', nonce'].Perm [token, timestamp, nonce]) :
    material token' timestamp' nonce' = material token timestamp nonce :=
  material_eq ((isSorting_mergeSort _).of_perm h.symm)

end Material

/-- **What is accepted.**  The check accepts exactly the digest of the ordered and joined texts in
lowercase hexadecimal, which is one text of forty characters; it does not see which of the texts is
the token; and it reports a mismatch, with the length in bytes of what was given, exactly where it
refuses. -/
theorem check_accepts_one
    (signature timestamp nonce token : String) :
    (∃ parts, IsSorting [token, timestamp, nonce] parts) ∧
    (∀ parts, IsSorting [token, timestamp, nonce] parts →
      ((checkSignature signature timestamp nonce token).1 = true ↔
        Utf8.ofString signature =
          Utf8.encode (Hexadecimal.ofBytes (Sha1.digest parts.flatten)))) ∧
    (∃ accepted : String,
      accepted.length = 40 ∧
      (∀ c ∈ accepted.toList, c ∈ "0123456789abcdef".toList) ∧
      ∀ given, (checkSignature given timestamp nonce token).1 = true ↔ given = accepted) ∧
    (∀ token' timestamp' nonce',
      [token', timestamp', nonce'].Perm [token, timestamp, nonce] →
      checkSignature signature timestamp' nonce' token' =
        checkSignature signature timestamp nonce token) ∧
    (checkSignature signature timestamp nonce token).2 =
      if (checkSignature signature timestamp nonce token).1 then []
      else [.signatureMismatch (Utf8.ofString signature).length] := by
  refine ⟨⟨_, isSorting_mergeSort _⟩, ?_, ?_, ?_, ?_⟩
  · intro parts hparts
    have hbytes : Utf8.encode (Hexadecimal.ofBytes (Sha1.digest parts.flatten)) =
        Utf8.ofString (compute token timestamp nonce) := by
      rw [Utf8.ofString, compute_eq hparts, String.toList_ofList]
    rw [checkSignature_fst_eq_true_iff, hbytes]
    exact ⟨congrArg Utf8.ofString, Utf8.ofString_injective⟩
  · refine ⟨compute token timestamp nonce, length_compute token timestamp nonce, ?_,
      fun given => checkSignature_fst_eq_true_iff⟩
    intro c hc
    rw [compute, String.toList_ofList] at hc
    exact Hexadecimal.mem_ofBytes hc
  · intro token' timestamp' nonce' hperm
    have hcompute : compute token' timestamp' nonce' = compute token timestamp nonce := by
      rw [compute, compute, material_of_perm hperm]
    rw [checkSignature, checkSignature, check, check, hcompute]
  · rw [checkSignature]
    split <;> rfl

/-! ## Two signatures -/

/-- The three texts stand in order already. -/
theorem compute_ab :
    compute "ab" "aba" "c" = "a0cb86810386f1333adc43d062861b27b2fe0a64" := by
  have hsorting : IsSorting ["ab", "aba", "c"] (["ab", "aba", "c"].map Utf8.ofString) := by
    decide +kernel
  rw [compute_eq hsorting]
  decide +kernel

/-- The token comes behind the other two texts. -/
theorem compute_mytoken :
    compute "mytoken" "1" "2" = "d5570a7378d7272fb695af01032ebd7b676dffbc" := by
  have hsorting : IsSorting ["mytoken", "1", "2"] (["1", "2", "mytoken"].map Utf8.ofString) := by
    decide +kernel
  rw [compute_eq hsorting]
  decide +kernel

end Signature
end PushGate
