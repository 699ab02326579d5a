import PushGate.Proofs.Gateway.Handshake
import PushGate.Proofs.Query.Writing

/-!
# Signed deliveries

The platform signs a delivery and puts signature, timestamp and nonce into the query, where they stand
in any order and among parameters of other names.  A query can be written in many ways.  None of this
keeps a delivery out: what is looked up are decoded names, and for each of the three there is one
value, the one that was meant.

**Results.**
* `Signed.values_eq`: what a look-up finds among the parameters of a signed delivery.
* `authenticate_written`: a signed delivery is admitted, however its query is written.
-/

namespace PushGate

/-- Parameters of a delivery that is signed with a token: signature, timestamp and nonce once each,
anywhere among others of other names. -/
structure Signed
    (token timestamp nonce : String)
    (others ps : List (String × String)) : Prop where
  order :
    ps.Perm ((Parameter.signature.name, Signature.compute token timestamp nonce) ::
      (Parameter.timestamp.name, timestamp) :: (Parameter.nonce.name, nonce) :: others)
  otherNames : ∀ given ∈ others, ∀ p : Parameter, given.1 ≠ p.name

namespace Query

variable {name other value : String} {ps qs : List (String × String)}

theorem values_cons_self :
    values name ((name, value) :: ps) = value :: values name ps := by
  simp only [values, List.filter_cons, beq_self_eq_true, if_true, List.map_cons]

theorem values_cons_of_ne
    (h : other ≠ name) :
    values name ((other, value) :: ps) = values name ps := by
  have hother : (other == name) = false := beq_eq_false_iff_ne.2 h
  simp only [values, List.filter_cons, hother, Bool.false_eq_true, if_false]

theorem values_eq_nil
    (h : ∀ given ∈ ps, given.1 ≠ name) :
    values name ps = [] := by
  rw [values, List.map_eq_nil_iff, List.filter_eq_nil_iff]
  intro given hgiven
  rw [beq_iff_eq]
  exact h given hgiven

/-- The order of the parameters only changes the order of the values. -/
theorem values_perm
    (h : ps.Perm qs)
    (name : String) :
    (values name ps).Perm (values name qs) :=
  (h.filter _).map _

end Query

section Values

variable {token timestamp nonce : String} {others ps : List (String × String)}

/-- Of each of the three parameters, a look-up finds the value that was signed. -/
theorem Signed.values_eq
    (h : Signed token timestamp nonce others ps) :
    Query.values Parameter.signature.name ps = [Signature.compute token timestamp nonce] ∧
      Query.values Parameter.timestamp.name ps = [timestamp] ∧
        Query.values Parameter.nonce.name ps = [nonce] := by
  have hothers : ∀ p : Parameter, Query.values p.name others = [] :=
    fun p => Query.values_eq_nil fun given hgiven => h.otherNames given hgiven p
  refine ⟨?_, ?_, ?_⟩
  · have hperm := Query.values_perm h.order Parameter.signature.name
    rw [Query.values_cons_self, Query.values_cons_of_ne (by decide),
      Query.values_cons_of_ne (by decide), hothers] at hperm
    exact hperm.eq_singleton
  · have hperm := Query.values_perm h.order Parameter.timestamp.name
    rw [Query.values_cons_of_ne (by decide), Query.values_cons_self,
      Query.values_cons_of_ne (by decide), hothers] at hperm
    exact hperm.eq_singleton
  · have hperm := Query.values_perm h.order Parameter.nonce.name
    rw [Query.values_cons_of_ne (by decide), Query.values_cons_of_ne (by decide),
      Query.values_cons_self, hothers] at hperm
    exact hperm.eq_singleton

/-- Of a parameter of another name, a look-up finds what the others give. -/
theorem Signed.values_other
    {name : String}
    {found : Option String}
    (h : Signed token timestamp nonce others ps)
    (hname : ∀ p : Parameter, p.name ≠ name)
    (hfound : Query.values name others = found.toList) :
    Query.values name ps = found.toList := by
  have hperm := Query.values_perm h.order name
  rw [Query.values_cons_of_ne (hname .signature), Query.values_cons_of_ne (hname .timestamp),
    Query.values_cons_of_ne (hname .nonce), hfound] at hperm
  cases found with
  | none => exact hperm.eq_nil
  | some value => exact hperm.eq_singleton

theorem compute_ne_empty (token timestamp nonce : String) :
    Signature.compute token timestamp nonce ≠ "" := by
  intro hempty
  have hlength := Signature.length_compute token timestamp nonce
  rw [hempty] at hlength
  cases hlength

theorem Signed.givesAll
    {query : Option Bytes}
    (h : Signed token timestamp nonce others (Query.parametersOf query))
    (htimestamp : timestamp ≠ "")
    (hnonce : nonce ≠ "") :
    GivesAll query (Signature.compute token timestamp nonce) timestamp nonce := by
  obtain ⟨hs, ht, hn⟩ := h.values_eq
  exact ⟨gives_iff.2 ⟨hs, compute_ne_empty token timestamp nonce⟩, gives_iff.2 ⟨ht, htimestamp⟩,
    gives_iff.2 ⟨hn, hnonce⟩⟩

/-- The signature that is computed is accepted without a word. -/
theorem checkSignature_compute (token timestamp nonce : String) :
    checkSignature (Signature.compute token timestamp nonce) timestamp nonce token = (true, []) :=
  if_pos (Signature.check_eq_true_iff.2 rfl)

end Values

/-- **Signed deliveries.**  A delivery that is signed with the token is admitted, wherever its
parameters stand among others and however the query is written; and a handshake with that query
finds the three values and the text to send back, if the query gives one. -/
theorem authenticate_written
    {token timestamp nonce : String}
    {others ps : List (String × String)}
    {query : Bytes}
    (htimestamp : timestamp ≠ "")
    (hnonce : nonce ≠ "")
    (hsigned : Signed token timestamp nonce others ps)
    (hwritten : Query.Writes ps query) :
    authenticate token (some query) = (.ok (), []) ∧
    ∀ echo : Option String,
      Query.values "echostr" others = echo.toList →
      Handshake.ofParameters (Query.parametersOf (some query)) =
        .ok ⟨⟨some (Signature.compute token timestamp nonce), some timestamp, some nonce⟩, echo⟩ := by
  have hread : Query.parametersOf (some query) = ps := Query.parameters_of_writes hwritten
  constructor
  · rw [← hread] at hsigned
    rw [authenticate, presented_of_givesAll (hsigned.givesAll htimestamp hnonce)]
    simp only [checkSignature_compute]
  · intro echo hecho
    obtain ⟨hs, ht, hn⟩ := hsigned.values_eq
    have hother : ∀ p : Parameter, p.name ≠ "echostr" := by
      intro p
      cases p <;> decide
    rw [hread, Handshake.ofParameters_eq_ok_iff, ofParameters_eq_ok_iff]
    simp only [Query.lookup_eq_ok_iff]
    exact ⟨⟨hs, ht, hn⟩, hsigned.values_other hother hecho⟩

/-- The three parameters, one by a name that is written with an escape, among a text to send back, a
name that occurs twice and a piece that is empty. -/
theorem authenticate_written_escaped :
    let signature := "d5570a7378d7272fb695af01032ebd7b676dffbc"
    let others := [("echostr", "a+b c"), ("x", ""), ("x", "")]
    let ps := ("nonce", "2") :: others ++ [("signature", signature), ("timestamp", "1")]
    let query := Utf8.ofString
      "%6Eonce=2&&echostr=a%2bb+c&x&x=&signature=d5570a7378d7272fb695af01032ebd7b676dffbc&timestamp=1"
    Signed "mytoken" "1" "2" others ps ∧
    Query.Writes ps query ∧
    authenticate "mytoken" (some query) = (.ok (), []) ∧
    Handshake.ofParameters (Query.parametersOf (some query)) =
      .ok ⟨⟨some signature, some "1", some "2"⟩, some "a+b c"⟩ := by
  intro signature others ps query
  have hsigned : Signed "mytoken" "1" "2" others ps := by
    constructor
    · rw [Signature.compute_mytoken]
      decide +kernel
    · intro given hgiven p
      revert given
      cases p <;> decide +kernel
  have hplain : ∀ (p : Query.Part) (s : String), (∀ b ∈ Utf8.ofString s, b ∉ p.marks) →
      Query.WritesText p s (Utf8.ofString s) :=
    fun p s => Query.writesBytes_self
  have hnonce : Query.WritesText .name "nonce" (0x25 :: 0x36 :: 0x45 :: Utf8.ofString "once") :=
    .cons (.escaped (by decide +kernel)) (hplain .name "once" (by decide +kernel))
  have hecho : Query.WritesText .value "a+b c"
      (0x61 :: 0x25 :: 0x32 :: 0x62 :: 0x62 :: 0x2B :: Utf8.ofString "c") :=
    .cons (.plain (by decide)) (.cons (.escaped (by decide +kernel))
      (.cons (.plain (by decide)) (.cons .plus (hplain .value "c" (by decide +kernel)))))
  have hwritten : Query.Writes ps query := by
    refine ⟨_, .pair hnonce (hplain .value "2" (by decide +kernel)) <| .empty <|
      .pair (hplain .name "echostr" (by decide +kernel)) hecho <|
      .bare (by decide) (hplain .name "x" (by decide +kernel)) <|
      .pair (hplain .name "x" (by decide +kernel)) .nil <|
      .pair (hplain .name "signature" (by decide +kernel))
        (hplain .value signature (by decide +kernel)) <|
      .pair (hplain .name "timestamp" (by decide +kernel)) (hplain .value "1" (by decide +kernel))
        .nil, by decide +kernel⟩
  obtain ⟨hadmitted, hhandshake⟩ := authenticate_written (by decide) (by decide) hsigned hwritten
  rw [Signature.compute_mytoken] at hhandshake
  exact ⟨hsigned, hwritten, hadmitted, hhandshake (some "a+b c") (by decide +kernel)⟩

end PushGate
