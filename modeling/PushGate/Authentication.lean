import PushGate.Log
import PushGate.Query
import PushGate.Rejection

/-!
# Authentication

A delivery is authentic if its query gives signature, timestamp and nonce, each once and not
empty, and the signature is the one that the token gives to the other two.  The first condition that
fails is the cause of the rejection, in this order: a parameter occurs twice; signature, timestamp
or nonce is absent or empty; the signature does not fit.

**Results.**
* `authenticate_eq_ok_iff`: exactly the authentic queries are admitted.
-/

namespace PushGate

/-- The parameters of a delivery, as far as they are given. -/
structure Credentials where
  signature : Option String
  timestamp : Option String
  nonce : Option String
deriving DecidableEq

/-- The credentials in a list of parameters, each of which may occur once. -/
def Credentials.ofParameters (ps : List (String × String)) :
    Except Query.Repeated Credentials := do
  let signature ← Query.lookup Parameter.signature.name ps
  let timestamp ← Query.lookup Parameter.timestamp.name ps
  let nonce ← Query.lookup Parameter.nonce.name ps
  return ⟨signature, timestamp, nonce⟩

/-- A parameter that must be given and not be empty. -/
def require (p : Parameter) (value : Option String) : Except Rejection String :=
  match value with
  | none => .error (.missing p)
  | some value => if value = "" then .error (.missing p) else .ok value

/-- The texts that a signature is checked over, or why there are none. -/
def presented (query : Option Bytes) : Except Rejection (String × String × String) :=
  match Credentials.ofParameters (Query.parametersOf query) with
  | .error _ => .error .query
  | .ok credentials => do
      let signature ← require .signature credentials.signature
      let timestamp ← require .timestamp credentials.timestamp
      let nonce ← require .nonce credentials.nonce
      return (signature, timestamp, nonce)

/-- Checks a signature, and reports one that does not fit. -/
def checkSignature (signature timestamp nonce token : String) : Bool × List LogEntry :=
  if Signature.check signature timestamp nonce token then (true, [])
  else (false, [.signatureMismatch (Utf8.ofString signature).length])

/-- Admits a query or tells why not, with what is reported on the way. -/
def authenticate (token : String) (query : Option Bytes) :
    Except Rejection Unit × List LogEntry :=
  match presented query with
  | .error e => (.error e, [])
  | .ok (signature, timestamp, nonce) =>
      match checkSignature signature timestamp nonce token with
      | (true, entries) => (.ok (), entries)
      | (false, entries) => (.error .signatureMismatch, entries)

/-- Checks the parameters of the platform's handshake. -/
def verifyUrl (token signature timestamp nonce : String) : Bool × List LogEntry :=
  if signature = "" ∨ timestamp = "" ∨ nonce = "" then (false, [])
  else checkSignature signature timestamp nonce token

/-! ## Who is admitted -/

theorem require_eq_ok_iff {p : Parameter} {value : Option String} {s : String} :
    require p value = .ok s ↔ value = some s ∧ s ≠ "" := by
  cases value with
  | none => simp [require]
  | some t =>
      simp only [require, Option.some.injEq]
      split
      · rename_i h
        simp only [reduceCtorEq, false_iff, not_and]
        rintro rfl hs
        exact hs h
      · rename_i h
        simp only [Except.ok.injEq]
        constructor
        · rintro rfl
          exact ⟨rfl, h⟩
        · exact fun h => h.1

theorem ofParameters_eq_ok_iff {ps : List (String × String)} {c : Credentials} :
    Credentials.ofParameters ps = .ok c ↔
      Query.lookup "signature" ps = .ok c.signature ∧
        Query.lookup "timestamp" ps = .ok c.timestamp ∧
          Query.lookup "nonce" ps = .ok c.nonce := by
  obtain ⟨signature, timestamp, nonce⟩ := c
  simp only [Credentials.ofParameters, Parameter.name]
  cases Query.lookup "signature" ps <;> cases Query.lookup "timestamp" ps <;>
    cases Query.lookup "nonce" ps <;>
      simp [bind, Except.bind, pure, Except.pure]

/-- The texts presented are the parameters, each given once and not empty. -/
theorem presented_eq_ok_iff {query : Option Bytes} {signature timestamp nonce : String} :
    presented query = .ok (signature, timestamp, nonce) ↔
      (Query.values "signature" (Query.parametersOf query) = [signature] ∧
        Query.values "timestamp" (Query.parametersOf query) = [timestamp] ∧
          Query.values "nonce" (Query.parametersOf query) = [nonce]) ∧
        signature ≠ "" ∧ timestamp ≠ "" ∧ nonce ≠ "" := by
  unfold presented
  cases hc : Credentials.ofParameters (Query.parametersOf query) with
  | error e =>
      simp only [reduceCtorEq, false_iff]
      rintro ⟨⟨h1, h2, h3⟩, -⟩
      have := @ofParameters_eq_ok_iff (Query.parametersOf query)
        ⟨some signature, some timestamp, some nonce⟩
      simp only [Query.lookup_eq_ok_iff, Option.toList_some, h1, h2, h3, hc] at this
      simp at this
  | ok c =>
      have h := ofParameters_eq_ok_iff.1 hc
      simp only [Query.lookup_eq_ok_iff] at h
      simp only [bind, Except.bind]
      obtain ⟨h1, h2, h3⟩ := h
      rw [h1, h2, h3]
      cases hs : require .signature c.signature with
      | error e =>
          simp only [reduceCtorEq, false_iff]
          rintro ⟨⟨g1, -, -⟩, hne, -⟩
          have : c.signature = some signature := by
            cases hcs : c.signature <;> simp_all
          simp [require_eq_ok_iff.2 ⟨this, hne⟩] at hs
      | ok s =>
          obtain ⟨hs', hsne⟩ := require_eq_ok_iff.1 hs
          cases ht : require .timestamp c.timestamp with
          | error e =>
              simp only [reduceCtorEq, false_iff]
              rintro ⟨⟨-, g2, -⟩, -, hne, -⟩
              have : c.timestamp = some timestamp := by
                cases hcs : c.timestamp <;> simp_all
              simp [require_eq_ok_iff.2 ⟨this, hne⟩] at ht
          | ok t =>
              obtain ⟨ht', htne⟩ := require_eq_ok_iff.1 ht
              cases hn : require .nonce c.nonce with
              | error e =>
                  simp only [reduceCtorEq, false_iff]
                  rintro ⟨⟨-, -, g3⟩, -, -, hne⟩
                  have : c.nonce = some nonce := by
                    cases hcs : c.nonce <;> simp_all
                  simp [require_eq_ok_iff.2 ⟨this, hne⟩] at hn
              | ok n =>
                  obtain ⟨hn', hnne⟩ := require_eq_ok_iff.1 hn
                  simp only [hs', ht', hn', Option.toList_some, pure, Except.pure,
                    Except.ok.injEq, Prod.mk.injEq, List.cons.injEq, and_true]
                  grind

theorem checkSignature_fst_eq_true_iff {signature timestamp nonce token : String} :
    (checkSignature signature timestamp nonce token).1 = true ↔
      signature = Signature.compute token timestamp nonce := by
  rw [← Signature.check_eq_true_iff, checkSignature]
  split <;> simp_all

/-- Exactly the authentic queries are admitted. -/
theorem authenticate_eq_ok_iff {token : String} {query : Option Bytes} :
    (authenticate token query).1 = .ok () ↔
      ∃ signature timestamp nonce,
        presented query = .ok (signature, timestamp, nonce) ∧
          signature = Signature.compute token timestamp nonce := by
  unfold authenticate
  cases hp : presented query with
  | error e => simp
  | ok p =>
      obtain ⟨signature, timestamp, nonce⟩ := p
      simp only [checkSignature, Except.ok.injEq, Prod.mk.injEq]
      by_cases h : Signature.check signature timestamp nonce token = true
      · have := Signature.check_eq_true_iff.1 h
        simp only [h, if_true, true_iff]
        exact ⟨_, _, _, ⟨rfl, rfl, rfl⟩, this⟩
      · have : ¬signature = Signature.compute token timestamp nonce :=
          fun he => h (Signature.check_eq_true_iff.2 he)
        simp only [h, Bool.false_eq_true, if_false, reduceCtorEq, false_iff]
        rintro ⟨_, _, _, ⟨rfl, rfl, rfl⟩, he⟩
        exact this he

end PushGate
