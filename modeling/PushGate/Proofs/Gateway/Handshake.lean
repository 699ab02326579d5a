import PushGate.Proofs.Authentication.Verdict
import PushGate.Proofs.Gateway.Access

/-!
# The handshake

The platform asks for a text to be given back before it sends deliveries to an address.  A delivery
whose parameters are absent, empty or given twice is refused with the cause; a handshake takes what
is absent for empty, and is told nothing but that it failed.  The two are authenticated alike all
the same: a handshake succeeds exactly if a delivery with its query would be admitted and the query
gives one text to send back, which is not empty.

**Results.**
* `authenticate_iff_verifyUrl`: parameters that are taken for empty are as good as required ones.
* `answer_of_verified`, `answer_of_not_verified`: the two answers to a handshake.
-/

namespace PushGate

namespace Handshake

/-- A handshake that succeeds, and the text that it gives to send back. -/
structure Verified
    (token : String)
    (query : Option Bytes)
    (echo : String) : Prop where
  authentic : (authenticate token query).1 = .ok ()
  once : Query.values "echostr" (Query.parametersOf query) = [echo]
  nonempty : echo ≠ ""

section Parameters

theorem toList_eq_singleton_iff
    {value : Option String}
    {s : String} :
    value.toList = [s] ∧ s ≠ "" ↔ value.getD "" = s ∧ s ≠ "" := by
  cases value with
  | none =>
      constructor
      · rintro ⟨⟨⟩, -⟩
      · rintro ⟨rfl, hne⟩
        exact absurd rfl hne
  | some t => simp

/-- The parts of a handshake are looked up one by one, the text to send back last. -/
theorem ofParameters_eq_ok_iff
    {ps : List (String × String)}
    {h : Handshake} :
    ofParameters ps = .ok h ↔
      Credentials.ofParameters ps = .ok h.credentials ∧
        Query.lookup "echostr" ps = .ok h.echostr := by
  obtain ⟨credentials, echostr⟩ := h
  rw [ofParameters]
  cases Credentials.ofParameters ps <;> cases Query.lookup "echostr" ps <;>
    simp [bind, Except.bind, pure, Except.pure]

variable {token : String} {query : Option Bytes} {c : Credentials}

/-- What is presented are the credentials as the handshake takes them, if none of them is empty. -/
theorem presented_eq_ok_iff_getD
    (hc : Credentials.ofParameters (Query.parametersOf query) = .ok c)
    {signature timestamp nonce : String} :
    presented query = .ok (signature, timestamp, nonce) ↔
      (c.signature.getD "" = signature ∧ signature ≠ "") ∧
        (c.timestamp.getD "" = timestamp ∧ timestamp ≠ "") ∧
          (c.nonce.getD "" = nonce ∧ nonce ≠ "") := by
  obtain ⟨hsignature, htimestamp, hnonce⟩ := PushGate.ofParameters_eq_ok_iff.1 hc
  rw [Query.lookup_eq_ok_iff] at hsignature htimestamp hnonce
  rw [presented_eq_ok_iff, hsignature, htimestamp, hnonce, ← toList_eq_singleton_iff,
    ← toList_eq_singleton_iff, ← toList_eq_singleton_iff]
  constructor
  · rintro ⟨⟨hs, ht, hn⟩, hs', ht', hn'⟩
    exact ⟨⟨hs, hs'⟩, ⟨ht, ht'⟩, ⟨hn, hn'⟩⟩
  · rintro ⟨⟨hs, hs'⟩, ⟨ht, ht'⟩, ⟨hn, hn'⟩⟩
    exact ⟨⟨hs, ht, hn⟩, hs', ht', hn'⟩

theorem verifyUrl_eq_true_iff
    {signature timestamp nonce : String} :
    (verifyUrl token signature timestamp nonce).1 = true ↔
      (signature ≠ "" ∧ timestamp ≠ "" ∧ nonce ≠ "") ∧
        signature = Signature.compute token timestamp nonce := by
  have hgiven : (signature ≠ "" ∧ timestamp ≠ "" ∧ nonce ≠ "") ↔
      ¬ (signature = "" ∨ timestamp = "" ∨ nonce = "") := by
    simp only [not_or, ne_eq]
  rw [hgiven, verifyUrl]
  split
  · rename_i hempty
    simp [hempty]
  · rename_i hnonempty
    rw [checkSignature_fst_eq_true_iff]
    exact ⟨fun hfits => ⟨hnonempty, hfits⟩, And.right⟩

/-- **One authentication.**  Credentials admit a delivery exactly if they verify a handshake, where
what is absent counts as empty. -/
theorem authenticate_iff_verifyUrl
    (hc : Credentials.ofParameters (Query.parametersOf query) = .ok c) :
    (authenticate token query).1 = .ok () ↔
      (verifyUrl token (c.signature.getD "") (c.timestamp.getD "")
        (c.nonce.getD "")).1 = true := by
  rw [authenticate_eq_ok_iff, verifyUrl_eq_true_iff]
  constructor
  · rintro ⟨signature, timestamp, nonce, hpresented, hfits⟩
    obtain ⟨⟨rfl, hs⟩, ⟨rfl, ht⟩, ⟨rfl, hn⟩⟩ := (presented_eq_ok_iff_getD hc).1 hpresented
    exact ⟨⟨hs, ht, hn⟩, hfits⟩
  · rintro ⟨⟨hs, ht, hn⟩, hfits⟩
    exact ⟨_, _, _, (presented_eq_ok_iff_getD hc).2 ⟨⟨rfl, hs⟩, ⟨rfl, ht⟩, ⟨rfl, hn⟩⟩, hfits⟩

/-- The credentials in a query that is let in can be read. -/
theorem exists_credentials
    (h : (authenticate token query).1 = .ok ()) :
    ∃ c, Credentials.ofParameters (Query.parametersOf query) = .ok c := by
  cases hc : Credentials.ofParameters (Query.parametersOf query) with
  | ok c => exact ⟨c, rfl⟩
  | error e =>
      rw [authenticate, presented, hc] at h
      cases h

end Parameters

section Answers

variable {token : String} {query : Option Bytes}

/-- The answer to a handshake that can be read. -/
theorem answer_of_read
    {c : Credentials}
    {echostr : Option String}
    (hread : ofParameters (Query.parametersOf query) = .ok ⟨c, echostr⟩) :
    (answer token query).1 =
      if echostr.getD "" ≠ "" ∧
          (verifyUrl token (c.signature.getD "") (c.timestamp.getD "")
            (c.nonce.getD "")).1 = true then
        .plainText 200 (echostr.getD "")
      else .empty 401 := by
  simp only [answer, hread]
  by_cases hecho : echostr.getD "" = ""
  · simp [hecho]
  · rw [if_neg hecho]
    cases hverified :
        (verifyUrl token (c.signature.getD "") (c.timestamp.getD "") (c.nonce.getD "")).1 <;>
      simp [hecho]

/-- A handshake that succeeds is given its text back. -/
theorem answer_of_verified
    {echo : String}
    (h : Verified token query echo) :
    (answer token query).1 = .plainText 200 echo := by
  obtain ⟨c, hc⟩ := exists_credentials h.authentic
  have hread : ofParameters (Query.parametersOf query) = .ok ⟨c, some echo⟩ := by
    rw [ofParameters_eq_ok_iff, Query.lookup_eq_ok_iff]
    exact ⟨hc, h.once⟩
  rw [answer_of_read hread, if_pos ⟨h.nonempty, (authenticate_iff_verifyUrl hc).1 h.authentic⟩]
  rfl

/-- A handshake that does not succeed is turned away, whatever is wrong with it. -/
theorem answer_of_not_verified
    (h : ∀ echo, ¬ Verified token query echo) :
    (answer token query).1 = .empty 401 := by
  cases hread : ofParameters (Query.parametersOf query) with
  | error e => simp only [answer, hread]
  | ok handshake =>
      obtain ⟨c, echostr⟩ := handshake
      obtain ⟨hc, hecho⟩ := ofParameters_eq_ok_iff.1 hread
      rw [Query.lookup_eq_ok_iff] at hecho
      rw [answer_of_read hread, if_neg]
      rintro ⟨hne, hverified⟩
      obtain ⟨honce, -⟩ := toList_eq_singleton_iff.2 ⟨rfl, hne⟩
      exact h _ ⟨(authenticate_iff_verifyUrl hc).2 hverified, hecho.trans honce, hne⟩

end Answers

end Handshake

namespace Gateway

section Requests

variable {g : Gateway} (room : Nat) (pool : Pool Message)
variable {path : String} (query : Option Bytes) (body : List Chunk)

theorem handle_of_get
    (h : g.locate path = some .webhook) :
    g.handle room pool ⟨⟨"GET", path, query⟩, body⟩ =
      answered pool ⟨"GET", path, query⟩ (Handshake.answer g.dispatcher.token query).1
        (Handshake.answer g.dispatcher.token query).2 := by
  simp only [handle, h, handleWebhook]
  rw [if_neg (by decide), if_pos trivial]

theorem handle_of_head
    (h : g.locate path = some .webhook) :
    g.handle room pool ⟨⟨"HEAD", path, query⟩, body⟩ =
      answered pool ⟨"HEAD", path, query⟩
        (Handshake.answer g.dispatcher.token query).1.headOnly
        (Handshake.answer g.dispatcher.token query).2 := by
  simp only [handle, h, handleWebhook]
  rw [if_neg (by decide), if_neg (by decide), if_pos trivial]

end Requests

section Answers

variable {env : Environment} {handlers : Handlers} {g : Gateway}

/-- The token of a gateway is the one that is set. -/
theorem SetUp.token_eq
    (h : SetUp env handlers g) :
    g.dispatcher.token = (Settings.load env).1.token :=
  ((setUp_iff rfl).1 h).1.1

/-- **The handshake.**  Where a path leads to the webhook, GET is answered 200 exactly if a delivery
with the same query is let in and the query gives one text to send back, which is not empty; the
body is then that text.  All else is answered 401, without a body.  HEAD is answered as GET, without
the body; and neither calls a handler or touches the pool. -/
theorem handle_handshake
    (h : SetUp env handlers g)
    (room : Nat)
    (pool : Pool Message)
    {path : String}
    (hpath : g.locate path = some .webhook)
    (query : Option Bytes)
    (body : List Chunk) :
    (∃ r : Response,
      (g.handle room pool ⟨⟨"GET", path, query⟩, body⟩).1.answer = .response r ∧
      (g.handle room pool ⟨⟨"HEAD", path, query⟩, body⟩).1.answer =
        .response { r with body := "" } ∧
      (r.status = 200 ↔
        ∃ echo, Handshake.Verified (Settings.load env).1.token query echo) ∧
      (∀ echo, Handshake.Verified (Settings.load env).1.token query echo →
        r = .plainText 200 echo) ∧
      ((∀ echo, ¬ Handshake.Verified (Settings.load env).1.token query echo) →
        r = .empty 401)) ∧
    ∀ method ∈ ["GET", "HEAD"],
      (g.handle room pool ⟨⟨method, path, query⟩, body⟩).1.calls = [] ∧
      (g.handle room pool ⟨⟨method, path, query⟩, body⟩).1.pool = pool.stats ∧
      (g.handle room pool ⟨⟨method, path, query⟩, body⟩).2 = pool := by
  rw [← h.token_eq]
  refine ⟨⟨(Handshake.answer g.dispatcher.token query).1, ?_, ?_, ?_,
    fun echo => Handshake.answer_of_verified, Handshake.answer_of_not_verified⟩, ?_⟩
  · rw [handle_of_get room pool query body hpath]
    rfl
  · rw [handle_of_head room pool query body hpath]
    rfl
  · constructor
    · intro hstatus
      by_contra hnone
      rw [Handshake.answer_of_not_verified (not_exists.1 hnone)] at hstatus
      exact absurd hstatus (by decide)
    · rintro ⟨echo, hverified⟩
      rw [Handshake.answer_of_verified hverified]
      rfl
  · simp only [List.forall_mem_cons, handle_of_get room pool query body hpath,
      handle_of_head room pool query body hpath]
    exact ⟨⟨rfl, rfl, rfl⟩, ⟨rfl, rfl, rfl⟩, List.forall_mem_nil _⟩

/-- A handshake that is signed and gives its text, escaped, once; and one that gives it twice. -/
theorem handle_handshake_escaped :
    let env : Environment := fun s =>
      if s = .token then some (Utf8.ofString "mytoken") else none
    let g : Gateway :=
      ⟨⟨"mytoken", defaultMaxBodyBytes, defaultPoolSize, {}, by decide, by decide⟩,
        [.literal "/wechat".toList]⟩
    let once := some (Utf8.ofString
      "timestamp=1&nonce=2&signature=d5570a7378d7272fb695af01032ebd7b676dffbc&echostr=a%2Bb+c")
    let twice := some (Utf8.ofString
      "timestamp=1&nonce=2&signature=d5570a7378d7272fb695af01032ebd7b676dffbc&echostr=a&echostr=a")
    SetUp env {} g ∧
    g.locate "/wechat" = some .webhook ∧
    Handshake.Verified "mytoken" once "a+b c" ∧
    (g.handle 1 g.dispatcher.initialPool ⟨⟨"GET", "/wechat", once⟩, []⟩).1.answer =
      .response (.plainText 200 "a+b c") ∧
    (authenticate "mytoken" twice).1 = .ok () ∧
    (g.handle 1 g.dispatcher.initialPool ⟨⟨"GET", "/wechat", twice⟩, []⟩).1.answer =
      .response (.empty 401) := by
  intro env g once twice
  have hload : (Settings.load env).1 = { Settings.default with token := "mytoken" } := by
    decide +kernel
  have hsetUp : SetUp env {} g :=
    (setUp_iff hload).2 ⟨⟨rfl, rfl, rfl, rfl⟩, by decide +kernel⟩
  have hpath : g.locate "/wechat" = some .webhook := by
    decide
  have hauthentic : ∀ query, GivesAll query "d5570a7378d7272fb695af01032ebd7b676dffbc" "1" "2" →
      (authenticate "mytoken" query).1 = .ok () :=
    fun query given => authentic_iff.1 ⟨_, _, _, given, Signature.compute_mytoken.symm⟩
  have hverified : Handshake.Verified "mytoken" once "a+b c" :=
    ⟨hauthentic once (by decide +kernel), by decide +kernel, by decide⟩
  have hsigned : (authenticate "mytoken" twice).1 = .ok () :=
    hauthentic twice (by decide +kernel)
  refine ⟨hsetUp, hpath, hverified, ?_, hsigned, ?_⟩
  · obtain ⟨⟨r, hget, -, -, hanswer, -⟩, -⟩ :=
      handle_handshake hsetUp 1 g.dispatcher.initialPool hpath once []
    rw [hload] at hanswer
    rw [hget, hanswer _ hverified]
  · obtain ⟨⟨r, hget, -, -, -, hanswer⟩, -⟩ :=
      handle_handshake hsetUp 1 g.dispatcher.initialPool hpath twice []
    rw [hload] at hanswer
    rw [hget, hanswer]
    rintro echo ⟨-, honce, -⟩
    have htwice : Query.values "echostr" (Query.parametersOf twice) = ["a", "a"] := by
      decide +kernel
    rw [htwice] at honce
    cases honce

end Answers

end Gateway
end PushGate
