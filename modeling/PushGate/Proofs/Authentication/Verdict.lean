import Mathlib.Data.List.Basic
import PushGate.Proofs.Dispatcher.Admission
import PushGate.Proofs.Signature.Acceptance

/-!
# The verdict on a query

What becomes of a query is said here of its parameters alone: how often each of the three names
occurs, with which value, and whether the signature fits.  The conditions exclude one another and
leave nothing out, so they settle what authentication answers.

An occurrence is one of the decoded name.  Parameters of other names do not occur in the conditions,
and neither does the order of the pieces.

**Results.**
* `verdict_exists`: every query has a verdict.
* `authenticate_of_verdict`: the verdict is what authentication answers.
* `authenticate_congr`: nothing but the values of the three parameters matters.
-/

namespace PushGate

/-- The parameters that are looked at before a parameter. -/
def Parameter.earlier : Parameter → List Parameter
  | .signature => []
  | .timestamp => [.signature]
  | .nonce => [.signature, .timestamp]

/-- How often a parameter occurs in a query, by its decoded name. -/
def occurrences
    (query : Option Bytes)
    (p : Parameter) : Nat :=
  (Query.parametersOf query).countP fun given => given.1 == p.name

/-- A query gives a parameter a value: once, and not the empty one. -/
structure Gives
    (query : Option Bytes)
    (p : Parameter)
    (value : String) : Prop where
  once : occurrences query p = 1
  mem : (p.name, value) ∈ Query.parametersOf query
  nonempty : value ≠ ""

/-- A parameter is absent from a query, or given the empty value. -/
def Lacks
    (query : Option Bytes)
    (p : Parameter) : Prop :=
  occurrences query p = 0 ∨ (p.name, "") ∈ Query.parametersOf query

/-- A query gives all three parameters. -/
structure GivesAll
    (query : Option Bytes)
    (signature timestamp nonce : String) : Prop where
  signature : Gives query .signature signature
  timestamp : Gives query .timestamp timestamp
  nonce : Gives query .nonce nonce

/-- The queries that are let in. -/
def Authentic
    (token : String)
    (query : Option Bytes) : Prop :=
  ∃ signature timestamp nonce,
    GivesAll query signature timestamp nonce ∧
      signature = Signature.compute token timestamp nonce

/-- The verdict on a query. -/
inductive Verdict
    (token : String)
    (query : Option Bytes) :
    Except Rejection Unit → Prop
  | repeated
      {p : Parameter}
      (twice : 2 ≤ occurrences query p) :
      Verdict token query (.error .query)
  | missing
      {p : Parameter}
      (atMostOnce : ∀ q, occurrences query q ≤ 1)
      (earlier : ∀ q ∈ p.earlier, ∃ value, Gives query q value)
      (lacks : Lacks query p) :
      Verdict token query (.error (.missing p))
  | mismatch
      {signature timestamp nonce : String}
      (given : GivesAll query signature timestamp nonce)
      (other : signature ≠ Signature.compute token timestamp nonce) :
      Verdict token query (.error .signatureMismatch)
  | admitted
      (authentic : Authentic token query) :
      Verdict token query (.ok ())

section Occurrences

variable {query : Option Bytes} {p : Parameter} {value : String}

theorem occurrences_eq_length :
    occurrences query p = (Query.values p.name (Query.parametersOf query)).length := by
  rw [occurrences, Query.values, List.length_map, List.countP_eq_length_filter]

theorem mem_values_iff :
    value ∈ Query.values p.name (Query.parametersOf query) ↔
      (p.name, value) ∈ Query.parametersOf query := by
  simp only [Query.values, List.mem_map, List.mem_filter, beq_iff_eq]
  constructor
  · rintro ⟨⟨name, value'⟩, ⟨hmem, rfl⟩, rfl⟩
    exact hmem
  · intro hmem
    exact ⟨(p.name, value), ⟨hmem, rfl⟩, rfl⟩

/-- A parameter is given a value exactly if that is all that a look-up finds. -/
theorem gives_iff :
    Gives query p value ↔
      Query.values p.name (Query.parametersOf query) = [value] ∧ value ≠ "" := by
  constructor
  · rintro ⟨honce, hmem, hne⟩
    rw [occurrences_eq_length, List.length_eq_one_iff] at honce
    obtain ⟨value', hvalues⟩ := honce
    rw [← mem_values_iff, hvalues, List.mem_singleton] at hmem
    exact ⟨by rw [hvalues, hmem], hne⟩
  · rintro ⟨hvalues, hne⟩
    refine ⟨?_, ?_, hne⟩
    · rw [occurrences_eq_length, hvalues]
      rfl
    · rw [← mem_values_iff, hvalues]
      exact List.mem_singleton.2 rfl

instance : Decidable (Gives query p value) :=
  decidable_of_iff _ gives_iff.symm

instance {signature timestamp nonce : String} :
    Decidable (GivesAll query signature timestamp nonce) :=
  decidable_of_iff
    (Gives query .signature signature ∧ Gives query .timestamp timestamp ∧
      Gives query .nonce nonce)
    ⟨fun ⟨hs, ht, hn⟩ => ⟨hs, ht, hn⟩, fun ⟨hs, ht, hn⟩ => ⟨hs, ht, hn⟩⟩

/-- The value that a look-up finds for a parameter that occurs at most once. -/
def first
    (query : Option Bytes)
    (p : Parameter) : Option String :=
  (Query.values p.name (Query.parametersOf query)).head?

theorem lookup_of_atMostOnce
    (h : occurrences query p ≤ 1) :
    Query.lookup p.name (Query.parametersOf query) = .ok (first query p) := by
  rw [occurrences_eq_length] at h
  rw [Query.lookup_eq_ok_iff, first]
  match hvalues : Query.values p.name (Query.parametersOf query) with
  | [] => rfl
  | [value] => rfl
  | _ :: _ :: _ =>
      rw [hvalues] at h
      simp at h

theorem lookup_of_twice
    (h : 2 ≤ occurrences query p) :
    Query.lookup p.name (Query.parametersOf query) = .error .repeated :=
  Query.lookup_eq_error_iff.2 (occurrences_eq_length ▸ h)

theorem require_of_gives
    (h : Gives query p value) :
    require p (first query p) = .ok value := by
  obtain ⟨hvalues, hne⟩ := gives_iff.1 h
  rw [require_eq_ok_iff, first, hvalues]
  exact ⟨rfl, hne⟩

theorem require_of_lacks
    (honce : occurrences query p ≤ 1)
    (h : Lacks query p) :
    require p (first query p) = .error (.missing p) := by
  rw [occurrences_eq_length] at honce
  rw [Lacks, occurrences_eq_length, ← mem_values_iff] at h
  rw [first]
  match hvalues : Query.values p.name (Query.parametersOf query) with
  | [] => rfl
  | [value] =>
      rw [hvalues] at h
      rcases h with hnone | hmem
      · cases hnone
      · rw [← List.mem_singleton.1 hmem]
        rfl
  | _ :: _ :: _ =>
      rw [hvalues] at honce
      simp at honce

theorem gives_or_lacks
    (honce : occurrences query p ≤ 1) :
    (∃ value, Gives query p value) ∨ Lacks query p := by
  rw [occurrences_eq_length] at honce
  match hvalues : Query.values p.name (Query.parametersOf query) with
  | [] =>
      refine Or.inr (Or.inl ?_)
      rw [occurrences_eq_length, hvalues]
      rfl
  | [value] =>
      by_cases hempty : value = ""
      · refine Or.inr (Or.inr ?_)
        rw [← mem_values_iff, hvalues, hempty]
        exact List.mem_singleton.2 rfl
      · exact Or.inl ⟨value, gives_iff.2 ⟨hvalues, hempty⟩⟩
  | _ :: _ :: _ =>
      rw [hvalues] at honce
      simp at honce

end Occurrences

section Presented

variable {query : Option Bytes} {signature timestamp nonce : String}

theorem GivesAll.atMostOnce
    (h : GivesAll query signature timestamp nonce)
    (p : Parameter) :
    occurrences query p ≤ 1 := by
  cases p with
  | signature => exact Nat.le_of_eq h.signature.once
  | timestamp => exact Nat.le_of_eq h.timestamp.once
  | nonce => exact Nat.le_of_eq h.nonce.once

/-- Parameters of which one occurs twice are no credentials. -/
theorem ofParameters_of_twice
    {p : Parameter}
    (h : 2 ≤ occurrences query p) :
    Credentials.ofParameters (Query.parametersOf query) = .error .repeated := by
  cases hc : Credentials.ofParameters (Query.parametersOf query) with
  | error e => rfl
  | ok c =>
      -- Credentials need all three look-ups, the one of `p` among them, wherever it stands.
      obtain ⟨hsignature, htimestamp, hnonce⟩ := ofParameters_eq_ok_iff.1 hc
      have htwice := lookup_of_twice h
      cases p with
      | signature =>
          rw [Parameter.name, hsignature] at htwice
          cases htwice
      | timestamp =>
          rw [Parameter.name, htimestamp] at htwice
          cases htwice
      | nonce =>
          rw [Parameter.name, hnonce] at htwice
          cases htwice

theorem ofParameters_of_atMostOnce
    (h : ∀ p, occurrences query p ≤ 1) :
    Credentials.ofParameters (Query.parametersOf query) =
      .ok ⟨first query .signature, first query .timestamp, first query .nonce⟩ :=
  ofParameters_eq_ok_iff.2
    ⟨lookup_of_atMostOnce (h .signature), lookup_of_atMostOnce (h .timestamp),
      lookup_of_atMostOnce (h .nonce)⟩

theorem presented_of_twice
    {p : Parameter}
    (h : 2 ≤ occurrences query p) :
    presented query = .error .query := by
  rw [presented, ofParameters_of_twice h]

theorem presented_of_atMostOnce
    (h : ∀ p, occurrences query p ≤ 1) :
    presented query = do
      let signature ← require .signature (first query .signature)
      let timestamp ← require .timestamp (first query .timestamp)
      let nonce ← require .nonce (first query .nonce)
      return (signature, timestamp, nonce) := by
  rw [presented, ofParameters_of_atMostOnce h]

/-- The first parameter that is absent or empty is the one that is reported. -/
theorem presented_of_lacks
    {p : Parameter}
    (honce : ∀ q, occurrences query q ≤ 1)
    (hearlier : ∀ q ∈ p.earlier, ∃ value, Gives query q value)
    (h : Lacks query p) :
    presented query = .error (.missing p) := by
  have hlacks := require_of_lacks (honce p) h
  rw [presented_of_atMostOnce honce]
  cases p with
  | signature =>
      rw [hlacks]
      rfl
  | timestamp =>
      obtain ⟨signature, hsignature⟩ := hearlier .signature (by decide)
      rw [require_of_gives hsignature, hlacks]
      rfl
  | nonce =>
      obtain ⟨signature, hsignature⟩ := hearlier .signature (by decide)
      obtain ⟨timestamp, htimestamp⟩ := hearlier .timestamp (by decide)
      rw [require_of_gives hsignature, require_of_gives htimestamp, hlacks]
      rfl

theorem presented_of_givesAll
    (h : GivesAll query signature timestamp nonce) :
    presented query = .ok (signature, timestamp, nonce) := by
  rw [presented_of_atMostOnce h.atMostOnce]
  rw [require_of_gives h.signature, require_of_gives h.timestamp, require_of_gives h.nonce]
  rfl

end Presented

section Verdicts

variable {token : String} {query : Option Bytes}

/-- The verdict on a query is what authentication answers. -/
theorem authenticate_of_verdict
    {v : Except Rejection Unit}
    (h : Verdict token query v) :
    (authenticate token query).1 = v := by
  cases h with
  | repeated twice => rw [authenticate, presented_of_twice twice]
  | missing atMostOnce earlier lacks =>
      rw [authenticate, presented_of_lacks atMostOnce earlier lacks]
  | @mismatch signature timestamp nonce given other =>
      have hcheck : (checkSignature signature timestamp nonce token).1 = false := by
        rw [← Bool.not_eq_true, checkSignature_fst_eq_true_iff]
        exact other
      simp only [authenticate, presented_of_givesAll given]
      split
      · simp_all
      · rfl
  | admitted authentic =>
      obtain ⟨signature, timestamp, nonce, hgiven, hfits⟩ := authentic
      exact authenticate_eq_ok_iff.2 ⟨_, _, _, presented_of_givesAll hgiven, hfits⟩

/-- Every query has a verdict. -/
theorem verdict_exists
    (token : String)
    (query : Option Bytes) :
    ∃ v, Verdict token query v := by
  -- A repeat of any of the three goes before whatever else is wrong, so it is looked for first.
  by_cases hrepeated : ∃ p, 2 ≤ occurrences query p
  · obtain ⟨p, htwice⟩ := hrepeated
    exact ⟨_, .repeated htwice⟩
  have honce : ∀ p, occurrences query p ≤ 1 := by
    intro p
    by_contra hmore
    exact hrepeated ⟨p, by omega⟩
  rcases gives_or_lacks (honce .signature) with ⟨signature, hsignature⟩ | hlacks
  swap
  · refine ⟨_, .missing honce ?_ hlacks⟩
    simp [Parameter.earlier]
  rcases gives_or_lacks (honce .timestamp) with ⟨timestamp, htimestamp⟩ | hlacks
  swap
  · refine ⟨_, .missing honce ?_ hlacks⟩
    simpa [Parameter.earlier] using ⟨signature, hsignature⟩
  rcases gives_or_lacks (honce .nonce) with ⟨nonce, hnonce⟩ | hlacks
  swap
  · refine ⟨_, .missing honce ?_ hlacks⟩
    simpa [Parameter.earlier] using ⟨⟨signature, hsignature⟩, ⟨timestamp, htimestamp⟩⟩
  have hgiven : GivesAll query signature timestamp nonce :=
    ⟨hsignature, htimestamp, hnonce⟩
  by_cases hfits : signature = Signature.compute token timestamp nonce
  · exact ⟨_, .admitted ⟨_, _, _, hgiven, hfits⟩⟩
  · exact ⟨_, .mismatch hgiven hfits⟩

theorem authenticate_eq_iff_verdict
    {v : Except Rejection Unit} :
    (authenticate token query).1 = v ↔ Verdict token query v := by
  constructor
  · rintro rfl
    obtain ⟨v, hv⟩ := verdict_exists token query
    rw [authenticate_of_verdict hv]
    exact hv
  · exact authenticate_of_verdict

theorem authentic_iff :
    Authentic token query ↔ (authenticate token query).1 = .ok () := by
  rw [authenticate_eq_iff_verdict]
  constructor
  · exact .admitted
  · rintro ⟨⟩
    assumption

/-- Nothing but the values of the three parameters matters. -/
theorem authenticate_congr
    {query' : Option Bytes}
    (h : ∀ p : Parameter,
      Query.values p.name (Query.parametersOf query) =
        Query.values p.name (Query.parametersOf query')) :
    authenticate token query = authenticate token query' := by
  have hlookup : ∀ p : Parameter,
      Query.lookup p.name (Query.parametersOf query) =
        Query.lookup p.name (Query.parametersOf query') := by
    intro p
    rw [Query.lookup, Query.lookup, h p]
  have hcredentials :
      Credentials.ofParameters (Query.parametersOf query) =
        Credentials.ofParameters (Query.parametersOf query') := by
    rw [Credentials.ofParameters, Credentials.ofParameters, hlookup, hlookup, hlookup]
  rw [authenticate, authenticate, presented, presented, hcredentials]

end Verdicts

/-- **Who is let in.**  Authentication answers the verdict on the query, so it lets in exactly the
authentic ones; nothing but the values of the three parameters matters to it; and where the query is
not authentic, no handler of messages is called and the body might as well never come. -/
theorem authenticate_decides
    (token : String)
    (query : Option Bytes) :
    (∀ v, (authenticate token query).1 = v ↔ Verdict token query v) ∧
    ((authenticate token query).1 = .ok () ↔ Authentic token query) ∧
    (∀ query' : Option Bytes,
      (∀ p : Parameter,
        Query.values p.name (Query.parametersOf query) =
          Query.values p.name (Query.parametersOf query')) →
      authenticate token query = authenticate token query') ∧
    (¬ Authentic token query →
      ∀ (d : Dispatcher) (room : Nat) (pool : Pool Message)
        (method path : String) (body : List Chunk),
        d.token = token →
        (∀ call ∈ (d.handle room pool ⟨⟨method, path, query⟩, body⟩).1.calls,
          ∃ e, call.occasion = .rejection e) ∧
        d.handle room pool ⟨⟨method, path, query⟩, body⟩ =
          d.handle room pool ⟨⟨method, path, query⟩, [.stalled]⟩) := by
  refine ⟨fun v => authenticate_eq_iff_verdict, authentic_iff.symm,
    fun query' h => authenticate_congr h, ?_⟩
  intro hforeign d room pool method path body htoken
  subst htoken
  rw [authentic_iff] at hforeign
  cases hrefused : (authenticate d.token query).1 with
  | ok _ => exact absurd hrefused hforeign
  | error e =>
      have hhandle : ∀ body : List Chunk,
          d.handle room pool ⟨⟨method, path, query⟩, body⟩ =
            d.reject room (d.inner room) pool ⟨method, path, query⟩
              (authenticate d.token query).2 e := by
        intro body
        rw [Dispatcher.handle_eq_serve]
        exact d.serve_of_refused hrefused
      rw [hhandle body, hhandle [.stalled]]
      refine ⟨?_, rfl⟩
      obtain ⟨action, -, hcalls, -⟩ := (d.reject_spec room pool ⟨method, path, query⟩
        (authenticate d.token query).2 e).called
      intro call hcall
      rw [hcalls, List.mem_singleton] at hcall
      exact ⟨e, by rw [hcall]⟩

-- A repeat goes before what is missing, also where a name is spelled in another way.
example :
    2 ≤ occurrences (some (Utf8.ofString "%6Eonce=1&other=2&nonce=")) .nonce := by
  decide +kernel

/-- A query that is signed with the token `ab`. -/
theorem authentic_ab :
    Authentic "ab" (some (Utf8.ofString
      "signature=a0cb86810386f1333adc43d062861b27b2fe0a64&timestamp=aba&nonce=c")) :=
  ⟨_, "aba", "c", by decide +kernel, Signature.compute_ab.symm⟩

end PushGate
