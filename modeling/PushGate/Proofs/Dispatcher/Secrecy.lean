import PushGate.Proofs.Authentication.Verdict

/-!
# The token stays secret

A token is read in one place, where a signature is checked, and all that comes of a check is whether
the signature fits.  So two dispatchers that differ in their tokens only are told apart by nothing
but a check on which the tokens differ: as long as there is none, whatever is asked of them, they
give the same answers, call the same handlers with the same arguments, report the same and have the
same counters.

Which checks a run performs is read off its records: there is one for each exchange, at any depth,
whose query presents the three texts, and one for each question whether a handshake is valid in
which no text is empty.  Only one of the two runs has to be looked at, since the other one performs
the same.

**Results.**
* `checkSignature_congr`, `authenticate_congr_token`, `verifyUrl_congr`: only the verdict counts.
* `serve_alike`: what one level of nesting keeps.
* `useAll_alike`: what a run keeps.
-/

namespace PushGate

/-- The texts of a check. -/
structure SignatureCheck where
  signature : String
  timestamp : String
  nonce : String
deriving DecidableEq

namespace SignatureCheck

/-- Whether the signature fits, under a token. -/
def verdict
    (c : SignatureCheck)
    (token : String) : Bool :=
  (checkSignature c.signature c.timestamp c.nonce token).1

/-- Two tokens come to the same verdict. -/
def Agreed
    (token token' : String)
    (c : SignatureCheck) : Prop :=
  c.verdict token = c.verdict token'

/-- Where two tokens give the same signature, they come to the same verdict. -/
theorem agreed_of_compute_eq
    {token token' : String}
    {c : SignatureCheck}
    (h : Signature.compute token c.timestamp c.nonce =
      Signature.compute token' c.timestamp c.nonce) :
    c.Agreed token token' := by
  have hcheck :
      Signature.check c.signature c.timestamp c.nonce token =
        Signature.check c.signature c.timestamp c.nonce token' := by
    rw [Signature.check, Signature.check, h]
  rw [Agreed, verdict, verdict, checkSignature, checkSignature, hcheck]

end SignatureCheck

/-- The checks that are performed for an exchange and for those inside it. -/
inductive Performed :
    Record → SignatureCheck → Prop
  | own
      {record : Record} {c : SignatureCheck}
      (given : presented record.head.query = .ok (c.signature, c.timestamp, c.nonce)) :
      Performed record c
  | inside
      {record inner : Record} {call : Call Record} {c : SignatureCheck}
      (called : call ∈ record.calls)
      (nested : inner ∈ call.nested)
      (performed : Performed inner c) :
      Performed record c

theorem performed_iff
    {record : Record}
    {c : SignatureCheck} :
    Performed record c ↔
      presented record.head.query = .ok (c.signature, c.timestamp, c.nonce) ∨
        ∃ call ∈ record.calls, ∃ inner ∈ call.nested, Performed inner c := by
  constructor
  · intro h
    cases h with
    | own given => exact Or.inl given
    | inside called nested performed => exact Or.inr ⟨_, called, _, nested, performed⟩
  · rintro (given | ⟨call, called, inner, nested, performed⟩)
    · exact .own given
    · exact .inside called nested performed

section Checks

variable {token token' : String}

/-- Only the verdict of a check is seen. -/
theorem checkSignature_congr
    {c : SignatureCheck}
    (h : c.Agreed token token') :
    checkSignature c.signature c.timestamp c.nonce token' =
      checkSignature c.signature c.timestamp c.nonce token := by
  simp only [SignatureCheck.Agreed, SignatureCheck.verdict, checkSignature] at h ⊢
  split <;> split <;> simp_all

theorem authenticate_congr_token
    {query : Option Bytes}
    (h : ∀ c : SignatureCheck,
      presented query = .ok (c.signature, c.timestamp, c.nonce) → c.Agreed token token') :
    authenticate token' query = authenticate token query := by
  cases hpresented : presented query with
  | error e => simp only [authenticate, hpresented]
  | ok texts =>
      obtain ⟨signature, timestamp, nonce⟩ := texts
      have hcheck := checkSignature_congr (h ⟨signature, timestamp, nonce⟩ hpresented)
      simp only [authenticate, hpresented, hcheck]

theorem verifyUrl_congr
    {c : SignatureCheck}
    (h : c.signature ≠ "" → c.timestamp ≠ "" → c.nonce ≠ "" → c.Agreed token token') :
    verifyUrl token' c.signature c.timestamp c.nonce =
      verifyUrl token c.signature c.timestamp c.nonce := by
  simp only [verifyUrl]
  split
  · rfl
  · rename_i hgiven
    simp only [not_or] at hgiven
    exact checkSignature_congr (h hgiven.1 hgiven.2.1 hgiven.2.2)

end Checks

/-- Two services that only a check with different verdicts can tell apart. -/
def Service.Alike
    (token token' : String)
    (service service' : Service) : Prop :=
  ∀ (pool : Pool Message) (x : Exchange),
    (∀ c, Performed (service pool x).1 c → c.Agreed token token') →
      service' pool x = service pool x

/-- An action comes to the same if the exchanges that it opens do. -/
theorem Action.run_alike
    {token token' : String}
    {room : Nat}
    {service service' : room ≠ 0 → Service}
    (hservice : ∀ opens, (service opens).Alike token token' (service' opens))
    (action : Action room)
    (pool : Pool Message)
    (h : ∀ record ∈ (action.run service pool).nested, ∀ c,
      Performed record c → c.Agreed token token') :
    action.run service' pool = action.run service pool := by
  -- The first exchange is alike, so its answer is the same, and the action goes on in the same way.
  induction action generalizing pool with
  | reply r => rfl
  | panic cause => rfl
  | dispatch opens x next ih =>
      rw [run_dispatch] at h
      obtain ⟨hfirst, hlater⟩ := List.forall_mem_cons.1 h
      have hrecord := hservice opens pool x hfirst
      rw [run_dispatch, run_dispatch, hrecord, ih _ _ hlater]

namespace Dispatcher

/-- Two dispatchers that differ in nothing but their tokens. -/
structure Twins
    (d d' : Dispatcher) : Prop where
  maxBodyBytes : d'.maxBodyBytes = d.maxBodyBytes
  poolSize : d'.poolSize = d.poolSize
  handlers : d'.handlers = d.handlers

section Level

variable {d d' : Dispatcher} (htwins : d.Twins d')
variable {room : Nat} {service service' : room ≠ 0 → Service}
variable (hservice : ∀ opens, (service opens).Alike d.token d'.token (service' opens))
variable {pool : Pool Message} {head : Head} {log : List LogEntry}
include htwins hservice

theorem reject_alike
    {e : Rejection}
    (h : ∀ c, Performed (d.reject room service pool head log e).1 c →
      c.Agreed d.token d'.token) :
    d'.reject room service' pool head log e = d.reject room service pool head log e := by
  have hrun :=
    (d.handlers.actOnRejection room head e).2.run_alike hservice pool
      (fun _ hnested c hc => h c (.inside (List.mem_singleton.2 rfl) hnested hc))
  simp only [reject, htwins.handlers, hrun]

theorem deliver_alike
    {slot : Slot Message}
    (h : ∀ c, Performed (d.deliver room service pool slot head log).1 c →
      c.Agreed d.token d'.token) :
    d'.deliver room service' pool slot head log = d.deliver room service pool slot head log := by
  have hrun :=
    (d.handlers.actOnMessage room head
      (Route.ofMessage slot.value) slot.value).2.run_alike hservice pool
      (fun _ hnested c hc => h c (.inside (List.mem_singleton.2 rfl) hnested hc))
  simp only [deliver, htwins.handlers, hrun]

theorem accept_alike
    {body : Bytes}
    (h : ∀ c, Performed (d.accept room service pool head log body).1 c →
      c.Agreed d.token d'.token) :
    d'.accept room service' pool head log body = d.accept room service pool head log body := by
  cases hfault : (Decoder.decode .blank body).fault with
  | some e =>
      rw [d.accept_of_fault hfault] at h
      rw [d.accept_of_fault hfault, d'.accept_of_fault hfault]
      exact reject_alike htwins hservice h
  | none =>
      rw [d.accept_of_message hfault] at h
      rw [d.accept_of_message hfault, d'.accept_of_message hfault]
      exact deliver_alike htwins hservice h

/-- One level of nesting: an exchange is alike if those inside it are. -/
theorem serve_alike :
    (d.serve room service).Alike d.token d'.token (d'.serve room service') := by
  intro pool x h
  have hauthenticate :
      authenticate d'.token x.head.query = authenticate d.token x.head.query := by
    refine authenticate_congr_token fun c hc => h c (.own ?_)
    rw [d.serve_head]
    exact hc
  have hreceive :
      Intake.receive d'.maxBodyBytes x.body = Intake.receive d.maxBodyBytes x.body := by
    rw [htwins.maxBodyBytes]
  cases hadmitted : (authenticate d.token x.head.query).1 with
  | error e =>
      have hadmitted' : (authenticate d'.token x.head.query).1 = .error e := by
        rw [hauthenticate, hadmitted]
      rw [d.serve_of_refused hadmitted] at h ⊢
      rw [d'.serve_of_refused hadmitted', hauthenticate]
      exact reject_alike htwins hservice h
  | ok _ =>
      have hadmitted' : (authenticate d'.token x.head.query).1 = .ok () := by
        rw [hauthenticate, hadmitted]
      cases hbody : Intake.receive d.maxBodyBytes x.body with
      | pending =>
          rw [d.serve_of_stalled hadmitted hbody,
            d'.serve_of_stalled hadmitted' (hreceive.trans hbody), hauthenticate]
      | failed cause =>
          rw [d.serve_of_broken hadmitted hbody] at h ⊢
          rw [d'.serve_of_broken hadmitted' (hreceive.trans hbody), hauthenticate]
          exact reject_alike htwins hservice h
      | whole body =>
          rw [d.serve_of_whole hadmitted hbody] at h ⊢
          rw [d'.serve_of_whole hadmitted' (hreceive.trans hbody), hauthenticate]
          exact accept_alike htwins hservice h

end Level

/-- An exchange is alike, however deep its exchanges are nested. -/
theorem handle_alike
    {d d' : Dispatcher}
    (htwins : d.Twins d')
    (room : Nat) :
    (d.handle room).Alike d.token d'.token (d'.handle room) := by
  induction room with
  | zero =>
      rw [handle_zero, handle_zero]
      exact serve_alike htwins fun opens => absurd rfl opens
  | succ room ih =>
      rw [handle_succ, handle_succ]
      exact serve_alike htwins fun _ => ih

end Dispatcher

/-- What a dispatcher is asked from outside. -/
inductive Use where
  | exchange (x : Exchange)
  /-- Whether the texts of a handshake are valid. -/
  | verification (c : SignatureCheck)

/-- What is seen of a use. -/
inductive Sight where
  | exchange (record : Record)
  | verification (c : SignatureCheck) (valid : Bool) (log : List LogEntry) (pool : Pool.Stats)

/-- The checks that are performed for a use. -/
def Sight.Performs : Sight → SignatureCheck → Prop
  | .exchange record, c => Performed record c
  | .verification asked _ _ _, c =>
      c = asked ∧ c.signature ≠ "" ∧ c.timestamp ≠ "" ∧ c.nonce ≠ ""

namespace Dispatcher

/-- Uses a dispatcher, with at most `room` exchanges inside one another. -/
def use
    (d : Dispatcher)
    (room : Nat)
    (pool : Pool Message) :
    Use → Sight × Pool Message
  | .exchange x =>
      let (record, pool) := d.handle room pool x
      (.exchange record, pool)
  | .verification c =>
      let (valid, log) := verifyUrl d.token c.signature c.timestamp c.nonce
      (.verification c valid log pool.stats, pool)

/-- Uses a dispatcher again and again. -/
def useAll
    (d : Dispatcher)
    (room : Nat)
    (pool : Pool Message) :
    List Use → List Sight × Pool Message
  | [] => ([], pool)
  | u :: us =>
      let (sight, pool) := d.use room pool u
      let (sights, pool) := d.useAll room pool us
      (sight :: sights, pool)

theorem useAll_cons
    (d : Dispatcher)
    (room : Nat)
    (pool : Pool Message)
    (u : Use)
    (us : List Use) :
    d.useAll room pool (u :: us) =
      ((d.use room pool u).1 :: (d.useAll room (d.use room pool u).2 us).1,
        (d.useAll room (d.use room pool u).2 us).2) :=
  rfl

section Uses

theorem performs_exchange_iff
    {d : Dispatcher}
    {room : Nat}
    {pool : Pool Message}
    {x : Exchange}
    {c : SignatureCheck} :
    (d.use room pool (.exchange x)).1.Performs c ↔ Performed (d.handle room pool x).1 c :=
  Iff.rfl

theorem performs_verification_iff
    {d : Dispatcher}
    {room : Nat}
    {pool : Pool Message}
    {asked c : SignatureCheck} :
    (d.use room pool (.verification asked)).1.Performs c ↔
      c = asked ∧ c.signature ≠ "" ∧ c.timestamp ≠ "" ∧ c.nonce ≠ "" :=
  Iff.rfl

variable {d d' : Dispatcher} (htwins : d.Twins d') (room : Nat)
include htwins

theorem use_alike
    {pool : Pool Message}
    {u : Use}
    (h : ∀ c, (d.use room pool u).1.Performs c → c.Agreed d.token d'.token) :
    d'.use room pool u = d.use room pool u := by
  cases u with
  | exchange x =>
      have hhandle :=
        handle_alike htwins room pool x fun c hc => h c (performs_exchange_iff.2 hc)
      simp only [use, hhandle]
  | verification c =>
      have hverify : verifyUrl d'.token c.signature c.timestamp c.nonce =
          verifyUrl d.token c.signature c.timestamp c.nonce :=
        verifyUrl_congr fun hs ht hn => h c (performs_verification_iff.2 ⟨rfl, hs, ht, hn⟩)
      simp only [use, hverify]

/-- A run is alike, however long it is. -/
theorem useAll_alike
    {pool : Pool Message}
    {us : List Use}
    (h : ∀ sight ∈ (d.useAll room pool us).1, ∀ c,
      sight.Performs c → c.Agreed d.token d'.token) :
    d'.useAll room pool us = d.useAll room pool us := by
  induction us generalizing pool with
  | nil => rfl
  | cons u us ih =>
      rw [useAll_cons] at h
      obtain ⟨hfirst, hlater⟩ := List.forall_mem_cons.1 h
      rw [useAll_cons, useAll_cons, use_alike htwins room hfirst, ih hlater]

end Uses

end Dispatcher

namespace Builder

/-- Which token it is has no part in building, unless it is empty. -/
theorem build_alike
    (b : Builder)
    {token token' : String}
    (h : token ≠ "")
    (h' : token' ≠ "") :
    ({ b with token := token }).build.2 = ({ b with token := token' }).build.2 ∧
    (∀ e, ({ b with token := token }).build.1 = .error e →
      ({ b with token := token' }).build.1 = .error e) ∧
    ∀ d, ({ b with token := token }).build.1 = .ok d →
      ∃ d', ({ b with token := token' }).build.1 = .ok d' ∧ d.Twins d' := by
  refine ⟨?_, ?_, ?_⟩
  · simp only [build, dif_neg h, dif_neg h']
  · intro e he
    cases e with
    | emptyToken => exact absurd ((build_fst_eq_emptyToken_iff _).1 he) h
    | pool e =>
        rw [build_fst_eq_pool_iff] at he ⊢
        exact ⟨h', he.2⟩
  · intro d hd
    obtain ⟨-, hbody, hsize, hhandlers⟩ := (build_fst_eq_ok_iff _ _).1 hd
    refine ⟨⟨token', d.maxBodyBytes, d.poolSize, d.handlers, h', d.poolSize_le⟩, ?_, rfl, rfl, rfl⟩
    exact (build_fst_eq_ok_iff _ _).2 ⟨rfl, hbody, hsize, hhandlers⟩

/-- **Secrecy of the token.**  Take two tokens, neither of them empty, and all else the same.
Building reports the same and fails for the same reason; and if no check that one dispatcher
performs has different verdicts under the two tokens, the other one gives the same run: answers,
calls with all that the handlers are given, reports and counters, at every depth. -/
theorem useAll_hides_token
    (b : Builder)
    {token token' : String}
    (h : token ≠ "")
    (h' : token' ≠ "") :
    ({ b with token := token }).build.2 = ({ b with token := token' }).build.2 ∧
    (∀ e, ({ b with token := token }).build.1 = .error e →
      ({ b with token := token' }).build.1 = .error e) ∧
    ∀ d, ({ b with token := token }).build.1 = .ok d →
      ∃ d', ({ b with token := token' }).build.1 = .ok d' ∧
        d'.initialPool = d.initialPool ∧
        ∀ (room : Nat) (us : List Use),
          (∀ sight ∈ (d.useAll room d.initialPool us).1, ∀ c,
            sight.Performs c → c.Agreed token token') →
          d'.useAll room d'.initialPool us = d.useAll room d.initialPool us := by
  obtain ⟨hlog, herror, hbuilt⟩ := b.build_alike h h'
  refine ⟨hlog, herror, ?_⟩
  intro d hd
  obtain ⟨d', hd', htwins⟩ := hbuilt d hd
  have hpool : d'.initialPool = d.initialPool := by
    rw [Dispatcher.initialPool, Dispatcher.initialPool, htwins.poolSize]
  refine ⟨d', hd', hpool, ?_⟩
  intro room us hchecks
  obtain ⟨htoken, -⟩ := (build_fst_eq_ok_iff _ _).1 hd
  obtain ⟨htoken', -⟩ := (build_fst_eq_ok_iff _ _).1 hd'
  rw [hpool]
  refine Dispatcher.useAll_alike htwins room ?_
  rw [htoken, htoken']
  exact hchecks

/-- Two tokens that make the same text where they are sorted in, so that a signature fits under
both; an exchange so signed is handled inside another one. -/
theorem useAll_hides_token_sorted :
    let query := some (Utf8.ofString
      "signature=a0cb86810386f1333adc43d062861b27b2fe0a64&timestamp=aba&nonce=c")
    let signed : Exchange := ⟨⟨"POST", "/inner", query⟩, [.failure "broken pipe"]⟩
    let unsigned : Exchange := ⟨⟨"POST", "/", none⟩, []⟩
    let reenter : RejectionHandler := fun room _ e =>
      if opens : room ≠ 0 then
        .dispatch opens signed fun _ => .reply (.plainText e.status e.text)
      else .reply (.empty e.status)
    let b : Builder := { token := "", poolSize := 1, handlers := { rejection := some reenter } }
    let d : Dispatcher :=
      ⟨"ab", defaultMaxBodyBytes, 1, { rejection := some reenter }, by decide, by decide⟩
    let us : List Use :=
      [.exchange unsigned,
        .verification ⟨"a0cb86810386f1333adc43d062861b27b2fe0a64", "aba", "c"⟩]
    (authenticate "ab" query).1 = .ok () ∧
    ({ b with token := "ab" }).build.1 = .ok d ∧
    (∀ sight ∈ (d.useAll 1 d.initialPool us).1, ∀ c,
      sight.Performs c → c.Agreed "ab" "ba") ∧
    ∃ d', ({ b with token := "ba" }).build.1 = .ok d' ∧
      d'.useAll 1 d'.initialPool us = d.useAll 1 d.initialPool us := by
  have hsorting : Signature.IsSorting ["ba", "aba", "c"] (["aba", "ba", "c"].map Utf8.ofString) := by
    decide +kernel
  have hcompute : Signature.compute "ab" "aba" "c" = Signature.compute "ba" "aba" "c" := by
    rw [Signature.compute_ab, Signature.compute_eq hsorting]
    decide +kernel
  intro query signed unsigned reenter b d us
  have hpresented : presented query =
      .ok ("a0cb86810386f1333adc43d062861b27b2fe0a64", "aba", "c") :=
    presented_of_givesAll (by decide +kernel)
  have hsigned : (authenticate d.token signed.head.query).1 = .ok () :=
    authentic_iff.1 authentic_ab
  have hagreed : ∀ signature,
      SignatureCheck.Agreed "ab" "ba" ⟨signature, "aba", "c"⟩ := by
    intro signature
    exact SignatureCheck.agreed_of_compute_eq hcompute
  have hbody : Intake.receive d.maxBodyBytes signed.body = .failed (.stream "broken pipe") :=
    rfl
  have hcalls : (d.handle 0 d.initialPool signed).1.calls =
      [⟨.rejection (.body (.stream "broken pipe")), signed.head, d.initialPool.stats, []⟩] := by
    rw [d.handle_eq_serve, d.serve_of_broken hsigned hbody]
    rfl
  have hinner : ∀ c, Performed (d.handle 0 d.initialPool signed).1 c → c.Agreed "ab" "ba" := by
    rintro ⟨signature, timestamp, nonce⟩ hc
    rw [performed_iff, hcalls, d.handle_eq_serve, d.serve_head, hpresented] at hc
    rcases hc with given | ⟨call, called, inner, nested, -⟩
    · cases given
      exact hagreed _
    · rw [List.mem_singleton.1 called] at nested
      cases nested
  have hnone : presented none = .error (.missing .signature) :=
    rfl
  have hrefused : (authenticate d.token unsigned.head.query).1 = .error (.missing .signature) := by
    rw [authenticate, hnone]
  have hcalls' : (d.handle 1 d.initialPool unsigned).1.calls =
      [⟨.rejection (.missing .signature), unsigned.head, d.initialPool.stats,
        [(d.handle 0 d.initialPool signed).1]⟩] := by
    rw [d.handle_eq_serve, d.serve_of_refused hrefused]
    rfl
  have hchecks : ∀ sight ∈ (d.useAll 1 d.initialPool us).1, ∀ c,
      sight.Performs c → c.Agreed "ab" "ba" := by
    rw [Dispatcher.useAll_cons, Dispatcher.useAll_cons]
    refine List.forall_mem_cons.2 ⟨?_, List.forall_mem_cons.2 ⟨?_, List.forall_mem_nil _⟩⟩
    · intro c hc
      rw [Dispatcher.performs_exchange_iff, performed_iff, hcalls'] at hc
      rcases hc with given | ⟨call, called, inner, nested, performed⟩
      · rw [d.handle_eq_serve, d.serve_head, hnone] at given
        cases given
      · rw [List.mem_singleton.1 called] at nested
        rw [List.mem_singleton.1 nested] at performed
        exact hinner c performed
    · intro c hc
      rw [Dispatcher.performs_verification_iff] at hc
      rw [hc.1]
      exact hagreed _
  have hbuilt : ({ b with token := "ab" }).build.1 = .ok d :=
    rfl
  have htoken : "ab" ≠ "" ∧ "ba" ≠ "" := by
    decide
  obtain ⟨-, -, hruns⟩ := useAll_hides_token b htoken.1 htoken.2
  obtain ⟨d', hbuilt', -, hsame⟩ := hruns d hbuilt
  exact ⟨hsigned, hbuilt, hchecks, d', hbuilt', hsame 1 us hchecks⟩

end Builder

end PushGate
