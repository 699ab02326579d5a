import PushGate.Proofs.Decoder.Reach
import PushGate.Proofs.Message.Integer
import PushGate.Proofs.Push.RoundTrip

/-!
# Whole numbers in pushes

The end of an element of a whole-number field is the one place where its number is read, from all that
stands directly in the element.  If that denotes a number of the field's type, the field holds this number
from there on, until the decoder comes to another element of the field; otherwise the push is refused,
and the fault names the field and the content as it stood there.

**Results.**
* `exists_state`: the decoder comes to every position that nothing before it settles.
* `fault_of_first`: the first decisive position gives the outcome.
* `Ends.exists_step`: what the end of an element does that denotes a number.
* `decode_toString`: a number written in decimal is decoded to itself.
* `decode_integer`: whole numbers are exact at every size.
-/

namespace PushGate

open Markup (Event Ending Reading)
open Decimal (Denotes)

namespace Decoder

/-- An element of a field, directly in the root, ends at a position, and this text stands directly in
it. -/
structure Ends
    (r : Reading)
    (i : Nat)
    (f : Field)
    (content : List Char) : Prop where
  tag : ∃ name, r.events[i]? = some (.stop name)
  place : ∃ j, DirectlyIn r.events j i f ∧ contentOf r.events j i = content

/-- But for one position, a push is valid: the first decisive position among the others comes later,
and accepts the push. -/
def ValidBut (r : Reading) (i : Nat) : Prop :=
  ∃ k, i < k ∧ Settles r k none ∧ ∀ j < k, j ≠ i → ∀ v, ¬ Settles r j v

section Positions

variable {r : Reading} {i k : Nat} {s : State}

/-- The decoder comes to every position that nothing before it settles. -/
theorem exists_state
    (hbalanced : Balanced r.events)
    (h : Tracks r.events i s)
    (hik : i ≤ k)
    (hk : k ≤ r.events.length)
    (hquiet : ∀ j, i ≤ j → j < k → ∀ v, ¬ Settles r j v) :
    ∃ t, Tracks r.events k t ∧
      ∀ later ending, s.run ((r.events.drop i).take (k - i) ++ later) ending = t.run later ending := by
  generalize hn : k - i = n
  induction n generalizing i s with
  | zero =>
      obtain rfl : i = k := by omega
      exact ⟨s, h, fun _ _ => rfl⟩
  | succ n ih =>
      have hlt : i < r.events.length := by omega
      have haccords := step_tracks h hbalanced (List.getElem?_eq_getElem hlt)
      cases hstep : s.step r.events[i] with
      | finished o =>
          rw [hstep] at haccords
          exact absurd ((haccords o.fault).2 rfl) (hquiet i (Nat.le_refl i) (by omega) _)
      | reading t =>
          rw [hstep] at haccords
          obtain ⟨u, htracks, hrun⟩ :=
            ih haccords.1 (by omega) (fun j hij hjk => hquiet j (by omega) hjk) (by omega)
          refine ⟨u, htracks, ?_⟩
          intro later ending
          rw [List.drop_eq_getElem_cons hlt, List.take_succ_cons, List.cons_append, ← hrun]
          simp only [State.run, hstep]

/-- Some position is the first decisive one. -/
theorem exists_first
    (target : Message)
    (body : Bytes) :
    ∃ k, (∀ j < k, ∀ v, ¬ Settles (Reading.ofBytes body) j v) ∧
      ∀ v, Settles (Reading.ofBytes body) k v ↔ v = (decode target body).fault := by
  obtain ⟨k, hquiet, -, hk⟩ := run_settles (balanced_ofBytes body)
    (tracks_start (Reading.ofBytes body).events target.reset) (Nat.zero_le _)
  exact ⟨k, fun j hj => hquiet j (Nat.zero_le j) hj, hk⟩

/-- The first decisive position gives the outcome. -/
theorem fault_of_first
    {body : Bytes}
    {v : Option Error}
    (target : Message)
    (hfirst : ∀ j < i, ∀ v, ¬ Settles (Reading.ofBytes body) j v)
    (hi : Settles (Reading.ofBytes body) i v) :
    (decode target body).fault = v := by
  obtain ⟨k, hquiet, hk⟩ := exists_first target body
  rcases Nat.lt_trichotomy i k with hlt | rfl | hgt
  · exact absurd hi (hquiet i hlt v)
  · exact ((hk v).1 hi).symm
  · exact absurd ((hk _).2 rfl) (hfirst k hgt _)

/-- A push that is accepted is valid but for any position before the one that accepts it. -/
theorem validBut_of_accepted
    {body : Bytes}
    (target : Message)
    (haccepted : (decode target body).fault = none)
    (hopen : ∀ k ≤ i, ¬ Settles (Reading.ofBytes body) k none) :
    ValidBut (Reading.ofBytes body) i := by
  obtain ⟨k, hquiet, hk⟩ := exists_first target body
  have haccepts : Settles (Reading.ofBytes body) k none := (hk none).2 haccepted.symm
  have hik : i < k := Nat.lt_of_not_le fun hki => hopen k hki haccepts
  exact ⟨k, hik, haccepts, fun j hj _ => hquiet j hj⟩

end Positions

section Elements

variable {r : Reading} {i : Nat} {f : NumberField} {content : List Char} {s : State}

/-- Where the content spells no number, the end of the element is decisive. -/
theorem Ends.settles
    (h : Ends r i (.number f) content)
    (hgiven : content ≠ [])
    (hnone : f.parse? content = none) :
    Settles r i (some (.invalidNumber f (String.ofList content))) := by
  obtain ⟨⟨name, htag⟩, j, hplace, rfl⟩ := h
  exact .badNumber htag hplace hgiven hnone

/-- Where the content spells a number, the end of the element is not decisive. -/
theorem Ends.not_settles
    {value : f.Carrier}
    (h : Ends r i (.number f) content)
    (hvalue : f.parse? content = some value)
    (v : Option Error) :
    ¬ Settles r i v := by
  obtain ⟨⟨name, htag⟩, j, ⟨hdepth, child, hchild, hfield⟩, rfl⟩ := h
  intro hv
  rcases (settles_at_stop_iff htag).1 hv with ⟨hroot, -⟩ | ⟨j', g, hplace, -, hnone, -⟩
  · omega
  · obtain ⟨-, child', hchild', hfield'⟩ := hplace
    obtain ⟨rfl, rfl⟩ := childAt_unique hchild hchild'
    rw [hfield] at hfield'
    cases hfield'
    rw [hvalue] at hnone
    cases hnone

/-- The end of an element puts the number that its content spells into the field. -/
theorem Ends.exists_step
    {value : f.Carrier}
    (h : Ends r i (.number f) content)
    (hgiven : content ≠ [])
    (hvalue : f.parse? content = some value)
    (htracks : Tracks r.events i s) :
    ∃ e t, r.events[i]? = some e ∧
      s.step e = .reading t ∧
      t.message = s.message.set (.number f) value ∧
      t.field = none := by
  obtain ⟨⟨name, htag⟩, j, ⟨hdepth, child, hchild, hfield⟩, rfl⟩ := h
  rw [← htracks.depth] at hdepth
  obtain ⟨j', child', hchild', hopen, hscratch⟩ := htracks.inside (by omega)
  obtain ⟨rfl, rfl⟩ := childAt_unique hchild hchild'
  rw [hfield] at hopen
  have hfinish : finishField s.message s.field (contentOf r.events j i) =
      .ok (s.message.set (.number f) value) := by
    rw [hopen, finishField, if_neg hgiven, Message.store?_eq, String.toList_ofList, hvalue]
    rfl
  let closed : State :=
    { s with message := s.message.set (.number f) value, field := none, scratch := "", depth := 1 }
  refine ⟨_, closed, htag, ?_, rfl, rfl⟩
  simp only [State.step, State.closeElement, if_pos hdepth, State.closeField_eq hscratch, hfinish]
  rw [if_neg (by omega), hdepth]

end Elements

section Taken

variable {body : Bytes} {i : Nat} {f : NumberField} {content : List Char} {value : f.Carrier}
variable (target : Message)
variable (h : Ends (Reading.ofBytes body) i (.number f) content)
variable (hgiven : content ≠ [])
variable (hvalue : f.parse? content = some value)
variable (hquiet : ∀ j < i, ∀ v, ¬ Settles (Reading.ofBytes body) j v)
include h hgiven hvalue hquiet

/-- Behind the end of an element that spells a number, the field is closed and holds the number. -/
theorem Ends.exists_behind :
    ∃ t, Tracks (Reading.ofBytes body).events (i + 1) t ∧
      t.message.get (.number f) = value ∧
      t.field = none ∧
      ∀ later ending,
        State.run { message := target.reset }
          ((Reading.ofBytes body).events.take (i + 1) ++ later) ending = t.run later ending := by
  obtain ⟨name, htag⟩ := h.tag
  have hlt : i < (Reading.ofBytes body).events.length := (List.getElem?_eq_some_iff.1 htag).1
  obtain ⟨s, hs, hrun⟩ := exists_state (balanced_ofBytes body)
    (tracks_start (Reading.ofBytes body).events target.reset) (Nat.zero_le i) (Nat.le_of_lt hlt)
    (fun j _ hj => hquiet j hj)
  obtain ⟨e, t, hevent, hstep, hmessage, hclosed⟩ := h.exists_step hgiven hvalue hs
  have haccords : (s.step e).Accords (Reading.ofBytes body) i :=
    step_tracks hs (balanced_ofBytes body) hevent
  rw [hstep] at haccords
  refine ⟨t, haccords.1, ?_, hclosed, ?_⟩
  · rw [hmessage]
    exact s.message.get_set_self (.number f) value
  · intro later ending
    rw [take_succ_of_getElem? hevent, List.append_assoc]
    refine (hrun ([e] ++ later) ending).trans ?_
    simp only [List.singleton_append, State.run, hstep]

/-- The number is in the field as soon as the element has ended. -/
theorem Ends.get_taken
    (ending : Ending) :
    (ofReading target ⟨(Reading.ofBytes body).events.take (i + 1), ending⟩).message.get
      (.number f) = value := by
  obtain ⟨t, -, hget, -, hrun⟩ := h.exists_behind target hgiven hvalue hquiet
  have hend := hrun [] ending
  rw [List.append_nil, State.run] at hend
  rw [ofReading, hend, finish_message, hget]

/-- The number is still there at the end, if no other element of the field follows. -/
theorem Ends.get_decode
    (hlast : ∀ k, i < k → ¬ Reaches (Reading.ofBytes body) k (.number f)) :
    (decode target body).message.get (.number f) = value := by
  obtain ⟨name, htag⟩ := h.tag
  have hlt : i < (Reading.ofBytes body).events.length := (List.getElem?_eq_some_iff.1 htag).1
  obtain ⟨t, htracks, hget, hclosed, hrun⟩ := h.exists_behind target hgiven hvalue hquiet
  have hquiet' : ∀ k < i + 1, ∀ v, ¬ Settles (Reading.ofBytes body) k v := by
    intro k hk
    rcases Nat.lt_or_eq_of_le (Nat.le_of_lt_succ hk) with hlt | rfl
    · exact hquiet k hlt
    · exact h.not_settles hvalue
  have hdecode : decode target body =
      t.run ((Reading.ofBytes body).events.drop (i + 1)) (Reading.ofBytes body).ending := by
    rw [← hrun, List.take_append_drop]
    rfl
  rw [hdecode, ← hget]
  exact get_run_of_not_reaches (balanced_ofBytes body) htracks hlt hquiet' (by simp [hclosed])
    (fun k hk => hlast k hk)

end Taken

section Bodies

variable {content : List Char} (target : Message)

/-- A push with one element, which holds a text without marks. -/
theorem decode_single
    {name : List Char}
    {f : Field}
    {value : f.Carrier}
    (hname : Push.IsName name)
    (hfield : Field.ofTag (Utf8.encode name) = some f)
    (hplain : ∀ c ∈ content, c ≠ '&' ∧ c ≠ '<')
    (hvalue : f.parse? content = some value) :
    decode target (Utf8.encode (Push.document (Push.enclose name content))) =
      ⟨Message.blank.set f value, none⟩ := by
  let c : Push.Child := ⟨name, [.text content]⟩
  have htext : c.text = content := List.append_nil content
  have hwrites : Push.Writes c.content content := by
    have hwritten := Push.Writes.text (Push.writes_self hplain) .nil
    rwa [List.append_nil] at hwritten
  have hchildField : c.field = some f := hfield
  have hchildValue : f.parse? c.text = some value := htext ▸ hvalue
  rw [decode_document, State.readOn_accepted (c := c) hname hwrites
    (Push.Child.accepted_of_value hchildField hchildValue), readOn_root,
    Push.Child.into_of_value hchildField hchildValue]

/-- A number of the type, written in decimal, is decoded to itself. -/
theorem decode_toString
    {f : IntegerField}
    {n : Int}
    {name : List Char}
    (hrange : f.InRange n)
    (hname : Push.IsName name)
    (hfield : Field.ofTag (Utf8.encode name) = some f.field) :
    let o := decode target
      (Utf8.encode (Push.document (Push.enclose name (toString n).toList)))
    o.fault = none ∧ o.message.integer f = n := by
  have hspells : Decimal.Spells (toString n).toList n := Decimal.spells_toString n
  have hplain : ∀ c ∈ (toString n).toList, c ≠ '&' ∧ c ≠ '<' := by
    intro c hc
    rcases hspells.mem hc with hdigit | rfl | rfl
    · exact ⟨fun heq => by simp [heq] at hdigit, fun heq => by simp [heq] at hdigit⟩
    · decide
    · decide
  have hvalue : f.field.parse? (toString n).toList = some (f.ofInt n) :=
    (if_neg hspells.ne_nil).trans (IntegerField.parse?_of_denotes hspells.denotes hrange)
  rw [decode_single target hname hfield hplain hvalue]
  refine ⟨rfl, ?_⟩
  rw [IntegerField.integer_set, IntegerField.toInt_ofInt hrange]

/-- **Whole numbers.**  In a push that is valid but for one element of a whole-number field, and that
has some text directly in this element, the outcome hangs on what the text denotes.  If it is a number
of the field's type, the push is accepted, and the field holds exactly this number as soon as the
element has ended, and to the end if no other element of the field comes after it; if not, the push is
refused, with the field and the untrimmed text.  So every number of the type, written in decimal, is
decoded to itself.  The elements of a field are known by their names. -/
theorem decode_integer (f : IntegerField) :
    (∀ name, Field.ofTag name = some f.field ↔ ∃ tag ∈ f.tags, name = Utf8.ofString tag) ∧
    (∀ body i content,
      Ends (Reading.ofBytes body) i f.field content →
      content ≠ [] →
      ValidBut (Reading.ofBytes body) i →
      ((decode target body).fault = none ↔ ∃ n, Denotes content n ∧ f.InRange n) ∧
      (∀ n, Denotes content n → f.InRange n →
        (∀ ending, (ofReading target
          ⟨(Reading.ofBytes body).events.take (i + 1), ending⟩).message.integer f = n) ∧
        ((∀ k, i < k → ¬ Reaches (Reading.ofBytes body) k f.field) →
          (decode target body).message.integer f = n)) ∧
      ((¬ ∃ n, Denotes content n ∧ f.InRange n) →
        (decode target body).fault = some (.invalidNumber f.number (String.ofList content)))) ∧
    ∀ n name, f.InRange n →
      Push.IsName name →
      Field.ofTag (Utf8.encode name) = some f.field →
      let o := decode target
        (Utf8.encode (Push.document (Push.enclose name (toString n).toList)))
      o.fault = none ∧ o.message.integer f = n := by
  refine ⟨fun name => IntegerField.ofTag_eq_some_field_iff, ?_, ?_⟩
  · intro body i content hends hgiven hvalid
    obtain ⟨k, hik, haccepts, hothers⟩ := hvalid
    have hquiet : ∀ j < i, ∀ v, ¬ Settles (Reading.ofBytes body) j v :=
      fun j hj => hothers j (by omega) (by omega)
    have hrefused : (¬ ∃ n, Denotes content n ∧ f.InRange n) →
        (decode target body).fault = some (.invalidNumber f.number (String.ofList content)) :=
      fun hnot => fault_of_first target hquiet
        (hends.settles hgiven (IntegerField.parse?_eq_none_iff.2 hnot))
    refine ⟨⟨?_, ?_⟩, ?_, hrefused⟩
    · intro hnone
      by_contra hnot
      rw [hrefused hnot] at hnone
      cases hnone
    · rintro ⟨n, hdenotes, hrange⟩
      refine fault_of_first target ?_ haccepts
      intro j hj
      by_cases hji : j = i
      · subst hji
        exact hends.not_settles (IntegerField.parse?_of_denotes hdenotes hrange)
      · exact hothers j hj hji
    · intro n hdenotes hrange
      have hvalue := IntegerField.parse?_of_denotes hdenotes hrange
      constructor
      · intro ending
        rw [← IntegerField.toInt_ofInt hrange]
        exact congrArg f.toInt (hends.get_taken target hgiven hvalue hquiet ending)
      · intro hlast
        rw [← IntegerField.toInt_ofInt hrange]
        exact congrArg f.toInt (hends.get_decode target hgiven hvalue hquiet hlast)
  · exact fun n name hrange hname hfield => decode_toString target hrange hname hfield

end Bodies

/-! ## A number in parts -/

/-- A push whose number is written as text and as a CDATA section, with an element between them. -/
def joinedPush : Bytes :=
  Utf8.ofString "<xml><MsgID> -0<i>7</i><![CDATA[12]]></MsgID></xml>"

theorem events_joinedPush :
    (Reading.ofBytes joinedPush).events =
      [.start (Utf8.ofString "xml"), .start (Utf8.ofString "MsgID"),
        .text (Utf8.ofString " -0"), .start (Utf8.ofString "i"), .text (Utf8.ofString "7"),
        .stop (Utf8.ofString "i"), .cdata (Utf8.ofString "12"),
        .stop (Utf8.ofString "MsgID"), .stop (Utf8.ofString "xml")] := by
  decide +kernel

theorem ends_joinedPush :
    Ends (Reading.ofBytes joinedPush) 7 Field.msgId " -012".toList := by
  have hopen : ∀ k ≤ 7, 1 < k → 2 ≤ depthAt (Reading.ofBytes joinedPush).events k := by
    rw [events_joinedPush]
    decide
  have hchild : ChildAt (Reading.ofBytes joinedPush).events 1 7 (Utf8.ofString "MsgID") := by
    refine ⟨?_, by decide, ?_, fun k hk hk7 => hopen k hk7 hk⟩ <;>
      rw [events_joinedPush] <;> rfl
  refine ⟨⟨Utf8.ofString "MsgID", ?_⟩, 1, ⟨?_, _, hchild, by decide +kernel⟩, ?_⟩ <;>
    rw [events_joinedPush] <;> decide +kernel

theorem validBut_joinedPush :
    ValidBut (Reading.ofBytes joinedPush) 7 := by
  refine validBut_of_accepted .blank (by decide +kernel) ?_
  intro k hk hsettles
  cases hsettles with
  | rootClosed tag inRoot =>
      have hinside : ∀ k ≤ 7, depthAt (Reading.ofBytes joinedPush).events k = 1 →
          (Reading.ofBytes joinedPush).events[k]?.map Event.closes ≠ some true := by
        rw [events_joinedPush]
        decide
      exact hinside k hk inRoot (congrArg (Option.map Event.closes) tag)
  | ended ending outside element =>
      rw [events_joinedPush] at hk
      exact absurd hk (by decide)

/-- No element comes after the one that ends at position seven. -/
theorem not_reaches_joinedPush
    (f : Field) :
    ∀ k, 7 < k → ¬ Reaches (Reading.ofBytes joinedPush) k f := by
  rintro k hk ⟨⟨e, he, name, htag, -⟩, -⟩
  have hnone : ∀ e ∈ (Reading.ofBytes joinedPush).events.drop 8, e.isElement = false := by
    rw [events_joinedPush]
    decide
  have hmem : e ∈ (Reading.ofBytes joinedPush).events.drop 8 := by
    refine List.mem_of_getElem? (i := k - 8) ?_
    rw [List.getElem?_drop, Nat.add_sub_of_le hk, he]
  have helement := hnone e hmem
  rcases htag with rfl | rfl <;> cases helement

/-- The parts are joined, and read with the sign and the leading zero; and the least number of the type
is read from its decimal digits. -/
theorem decode_integer_joinedPush :
    let f := IntegerField.int64 .msgId
    let least := Utf8.encode
      (Push.document (Push.enclose "MsgID".toList (toString f.least).toList))
    (Ends (Reading.ofBytes joinedPush) 7 f.field " -012".toList ∧
      " -012".toList ≠ [] ∧
      ValidBut (Reading.ofBytes joinedPush) 7) ∧
    (Denotes " -012".toList (-12) ∧
      f.InRange (-12) ∧
      ∀ k, 7 < k → ¬ Reaches (Reading.ofBytes joinedPush) k f.field) ∧
    ((decode .blank joinedPush).fault = none ∧
      (decode .blank joinedPush).message.integer f = -12) ∧
    (f.InRange f.least ∧
      Push.IsName "MsgID".toList ∧
      Field.ofTag (Utf8.encode "MsgID".toList) = some f.field) ∧
    (decode .blank least).fault = none ∧
      (decode .blank least).message.integer f = f.least := by
  intro f least
  have hends : Ends (Reading.ofBytes joinedPush) 7 f.field " -012".toList := ends_joinedPush
  have hdenotes : Denotes " -012".toList (-12) :=
    Decimal.signed?_trim_eq_some_iff.1 (by decide +kernel)
  have hrange : f.InRange (-12) := by decide
  have hname : Push.IsName "MsgID".toList := Push.isName_of_all (by decide)
  obtain ⟨htags, hread, hwritten⟩ := decode_integer .blank f
  have hfield : Field.ofTag (Utf8.encode "MsgID".toList) = some f.field :=
    (htags _).2 ⟨"MsgID", by decide, rfl⟩
  obtain ⟨hverdict, hnumber, -⟩ :=
    hread joinedPush 7 " -012".toList hends (by decide) validBut_joinedPush
  exact ⟨⟨hends, by decide, validBut_joinedPush⟩,
    ⟨hdenotes, hrange, not_reaches_joinedPush f.field⟩,
    ⟨hverdict.2 ⟨-12, hdenotes, hrange⟩,
      (hnumber (-12) hdenotes hrange).2 (not_reaches_joinedPush f.field)⟩,
    ⟨by decide, hname, hfield⟩,
    hwritten f.least "MsgID".toList (by decide) hname hfield⟩

end Decoder
end PushGate
