import PushGate.Proofs.Push.Content

/-!
# Decoding undoes writing

A push that has been written down, in whichever way, is decoded to the message that it stands for.
Between two children the decoder is in the root with some message (`inRoot`); a child changes the
message as it says (`Child.into`), or stops the decoder if its number is none.

**Results.**
* `readOn_accepted`, `readOn_refused`: one child.
* `readOn_children`: the children of the root, one after the other.
* `holds_fill`: the message that all children together make.
-/

namespace PushGate

open Markup (Event Reader)
open Utf8 (encode)

namespace Push

namespace Child

def into (c : Child) (m : Message) : Message :=
  match c.field with
  | none => m
  | some f =>
      match f.parse? c.text with
      | some value => m.set f value
      | none => m

variable {c : Child} {m : Message} {f : Field}

theorem accepted_of_value
    {value : f.Carrier}
    (hf : c.field = some f)
    (hvalue : f.parse? c.text = some value) :
    c.Accepted := by
  rintro g ⟨hg, hnone⟩
  obtain rfl : f = .number g := Option.some.inj (hf.symm.trans hg)
  rw [hvalue] at hnone
  cases hnone

theorem Accepted.exists_value
    (h : c.Accepted)
    (hf : c.field = some f) :
    ∃ value, f.parse? c.text = some value := by
  cases f with
  | text f => exact ⟨_, rfl⟩
  | number f =>
      cases hparse : (Field.number f).parse? c.text with
      | none => exact absurd ⟨hf, hparse⟩ (h f)
      | some value => exact ⟨value, rfl⟩

theorem into_of_none (hf : c.field = none) : c.into m = m := by
  rw [into, hf]

theorem into_of_value
    {value : f.Carrier}
    (hf : c.field = some f)
    (hvalue : f.parse? c.text = some value) :
    c.into m = m.set f value := by
  rw [into, hf]
  simp only [hvalue]

theorem get_into_self
    (h : c.Accepted)
    (hf : c.field = some f) :
    f.parse? c.text = some ((c.into m).get f) := by
  obtain ⟨value, hvalue⟩ := h.exists_value hf
  rw [into_of_value hf hvalue, Message.get_set_self]
  exact hvalue

theorem get_into_of_ne (hf : c.field ≠ some f) : (c.into m).get f = m.get f := by
  cases hc : c.field with
  | none => rw [into_of_none hc]
  | some g =>
      have hfg : f ≠ g := by
        rintro rfl
        exact hf hc
      cases hvalue : g.parse? c.text with
      | none =>
          rw [into, hc]
          simp only [hvalue]
      | some value => rw [into_of_value hc hvalue, Message.get_set_of_ne m value hfg]

end Child

theorem isName_of_all
    {c : Char}
    {s : List Char}
    (h : (c :: s).all (fun d => d.isAlphanum || d == '_') = true) :
    IsName (c :: s) := by
  refine ⟨List.cons_ne_nil c s, ?_⟩
  intro d hd
  have := List.all_eq_true.1 h d hd
  rwa [Bool.or_eq_true, beq_iff_eq] at this

/-- Characters that begin nothing else stand for themselves in text. -/
theorem writes_self
    {s : List Char}
    (h : ∀ c ∈ s, c ≠ '&' ∧ c ≠ '<') :
    WritesText s s := by
  induction s with
  | nil => exact .nil
  | cons c s ih =>
      obtain ⟨hreference, htag⟩ := h c List.mem_cons_self
      exact .cons (.raw hreference htag) (ih fun d hd => h d (List.mem_cons_of_mem _ hd))

/-- Blanks stand for themselves in text. -/
theorem writes_blank
    {blanks : List Char}
    (h : IsBlank blanks) :
    WritesText blanks blanks := by
  refine writes_self fun c hc => ⟨?_, ?_⟩
  · rintro rfl
    exact absurd (h _ hc) (by decide)
  · rintro rfl
    exact absurd (h _ hc) (by decide)

def fill (m : Message) (children : List Child) : Message :=
  children.foldl (fun m c => c.into m) m

/-- The last child of a field has the field's value; without one the value stays. -/
theorem get_fill
    {children : List Child}
    (h : ∀ c ∈ children, c.Accepted)
    (m : Message)
    (f : Field) :
    (match children.reverse.find? fun c => c.field = some f with
      | some c => f.parse? c.text
      | none => some (m.get f)) = some ((fill m children).get f) := by
  induction children generalizing m with
  | nil => rfl
  | cons c children ih =>
      have hrest := ih (fun d hd => h d (List.mem_cons_of_mem _ hd)) (c.into m)
      have hfill : fill m (c :: children) = fill (c.into m) children := rfl
      rw [hfill, ← hrest, List.reverse_cons, List.find?_append]
      cases children.reverse.find? fun c => c.field = some f with
      | some d => rfl
      | none =>
          by_cases hf : c.field = some f
          · simpa [hf] using Child.get_into_self (h c List.mem_cons_self) hf
          · simp [hf, Child.get_into_of_ne hf]

/-- The children fill a blank message with what they hold. -/
theorem holds_fill
    {children : List Child}
    (h : ∀ c ∈ children, c.Accepted) :
    Holds (fill .blank children) children := by
  intro f
  rw [← get_fill h, lastText]
  cases children.reverse.find? fun c => c.field = some f with
  | some c => rfl
  | none => exact f.parse?_nil

end Push

namespace Decoder

/-- A number is read into a cleared field exactly if its text is one. -/
theorem finishField_clear
    (m : Message)
    (f : NumberField)
    (content : List Char) :
    finishField (m.clear (.number f)) (some (.number f)) content =
      match (Field.number f).parse? content with
      | some value => .ok (m.set (.number f) value)
      | none => .error (.invalidNumber f (String.ofList content)) := by
  by_cases hempty : content = []
  · subst hempty
    rcases f with f | f | f <;> rfl
  · have hparse : (Field.number f).parse? content = f.parse? content := if_neg hempty
    rw [finishField, if_neg hempty, Message.store?_eq, String.toList_ofList, hparse]
    cases f.parse? content with
    | none => rfl
    | some value => exact congrArg Except.ok (m.set_clear (.number f) value)

namespace State

/-- Between two children of the root. -/
def inRoot (m : Message) : State :=
  { message := m, depth := 1, rootSeen := true }

/-- At the beginning of a child of the root. -/
def inChild (m : Message) (f : Option Field) : State :=
  { message := m, depth := 2, rootSeen := true, field := f }

section Children

variable {m : Message} {c : Push.Child} {v rest : List Char} {opened : List Bytes}

/-- The start tag of a child clears the field that the child belongs to. -/
theorem step_start_child
    {name : List Char}
    (hname : Push.IsName name) :
    (inRoot m).step (.start (encode name)) =
      .reading ((inChild m (Field.ofTag (encode name))).clearField
        (Field.ofTag (encode name))) := by
  rw [step, Markup.localName_encode hname]
  cases hfield : Field.ofTag (encode name) with
  | none => simp [openElement, inRoot, inChild, hfield, clearField]
  | some f => simp [openElement, inRoot, inChild, hfield, clearField]

theorem step_stop_child
    {s : State}
    {name : Bytes}
    (hdepth : s.depth = 2)
    (hclose : s.closeField = .ok (inChild m none)) :
    s.step (.stop name) = .reading (inRoot m) := by
  rw [step, closeElement, if_pos hdepth, hclose]
  rfl

theorem step_stop_child_of_error
    {s : State}
    {name : Bytes}
    {e : Error}
    (hdepth : s.depth = 2)
    (hclose : s.closeField = .error e) :
    s.step (.stop name) = s.fail e := by
  rw [step, closeElement, if_pos hdepth, hclose]

theorem gain_textChild
    (m : Message)
    (f : TextField)
    (t : List Char) :
    (inChild (m.clear (.text f)) (some (.text f))).gain t =
      inChild (m.set (.text f) (String.ofList t)) (some (.text f)) := by
  have hclear : (m.clear (.text f)).text f = "" := Message.text_setText_self m f ""
  have happend : (m.clear (.text f)).setText f
      ((m.clear (.text f)).text f ++ String.ofList t) = m.set (.text f) (String.ofList t) := by
    rw [hclear, String.empty_append]
    exact Message.set_clear m (.text f) _
  rw [← happend]
  rfl

theorem gain_numberChild
    (m : Message)
    (f : NumberField)
    (t : List Char) :
    (inChild (m.clear (.number f)) (some (.number f))).gain t =
      { inChild (m.clear (.number f)) (some (.number f)) with scratch := String.ofList t } := by
  have happend : "" ++ String.ofList t = String.ofList t := String.empty_append
  rw [← happend]
  rfl

/-- A child that has gained a text with a value ends with the value in its field. -/
theorem closeField_gain
    {f : Field}
    {value : f.Carrier}
    {t : List Char}
    (h : f.parse? t = some value) :
    ((inChild (m.clear f) (some f)).gain t).closeField = .ok (inChild (m.set f value) none) := by
  cases f with
  | text f =>
      cases h
      rw [gain_textChild]
      rfl
  | number f =>
      have hfinish := finishField_clear m f t
      rw [h] at hfinish
      rw [gain_numberChild, closeField_eq rfl]
      simp only [inChild, hfinish]

theorem closeField_gain_of_none
    {f : NumberField}
    {t : List Char}
    (h : (Field.number f).parse? t = none) :
    ((inChild (m.clear (.number f)) (some (.number f))).gain t).closeField =
      .error (.invalidNumber f (String.ofList t)) := by
  have hfinish := finishField_clear m f t
  rw [h] at hfinish
  rw [gain_numberChild, closeField_eq rfl]
  simp only [inChild, hfinish]

/-- What is read of a child before its end tag. -/
theorem readOn_childContent
    (hname : Push.IsName c.name)
    (hwrites : Push.Writes c.content v) :
    (inRoot m).readOn ⟨encode (Push.enclose c.name v ++ rest), opened⟩ =
      (((inChild m c.field).clearField c.field).gain c.text).readOn
        ⟨encode ('<' :: '/' :: (c.name ++ '>' :: rest)), encode c.name :: opened⟩ := by
  rw [Push.enclose_append]
  rw [readOn_of_reading (Reader.next_start hname) (step_start_child hname)]
  refine (readOn_writes hwrites .nil ?_ _).trans ?_
  · simp [inChild]
  · rfl

/-- An accepted child changes the message, and reading goes on behind it. -/
theorem readOn_accepted
    (hname : Push.IsName c.name)
    (hwrites : Push.Writes c.content v)
    (hc : c.Accepted) :
    (inRoot m).readOn ⟨encode (Push.enclose c.name v ++ rest), opened⟩ =
      (inRoot (c.into m)).readOn ⟨encode rest, opened⟩ := by
  rw [readOn_childContent hname hwrites]
  refine readOn_of_reading (Reader.next_stop hname) (step_stop_child ?_ ?_)
  · simp [inChild]
  · cases hfield : c.field with
    | none =>
        rw [Push.Child.into_of_none hfield]
        rfl
    | some f =>
        obtain ⟨value, hvalue⟩ := hc.exists_value hfield
        rw [Push.Child.into_of_value hfield hvalue]
        exact closeField_gain hvalue

/-- A refused child stops the decoder. -/
theorem readOn_refused
    {f : NumberField}
    (hname : Push.IsName c.name)
    (hwrites : Push.Writes c.content v)
    (hc : c.Refused f) :
    ((inRoot m).readOn ⟨encode (Push.enclose c.name v ++ rest), opened⟩).fault =
      some (.invalidNumber f (String.ofList c.text)) := by
  have hclose := closeField_gain_of_none (m := m) hc.2
  have hdepth : ((inChild (m.clear (.number f)) (some (.number f))).gain c.text).depth = 2 := by
    simp [inChild]
  rw [readOn_childContent hname hwrites, hc.1]
  exact congrArg Outcome.fault
    (readOn_of_finished (Reader.next_stop hname) (step_stop_child_of_error hdepth hclose))

theorem readOn_blank
    {blanks : List Char}
    (hblank : Push.IsBlank blanks)
    (hmarkup : v.head? = some '<') :
    (inRoot m).readOn ⟨encode (blanks ++ v), opened⟩ = (inRoot m).readOn ⟨encode v, opened⟩ := by
  rw [readOn_text (Push.writes_blank hblank) hmarkup, gain_of_depth_ne _ _ (by simp [inRoot])]

/-- Accepted children change the message one after the other. -/
theorem readOn_children
    {children : List Push.Child}
    (hwrites : Push.WritesChildren children v)
    (hchildren : ∀ c ∈ children, c.Accepted) :
    (inRoot m).readOn ⟨encode (v ++ '<' :: rest), opened⟩ =
      (inRoot (Push.fill m children)).readOn ⟨encode ('<' :: rest), opened⟩ := by
  induction hwrites generalizing m with
  | nil blank => exact readOn_blank blank rfl
  | @cons blanks c v children w blank isName first _ ih =>
      rw [List.append_assoc, List.append_assoc, readOn_blank blank rfl]
      rw [readOn_accepted isName first (hchildren c List.mem_cons_self)]
      exact ih fun d hd => hchildren d (List.mem_cons_of_mem _ hd)

/-- The first refused child stops the decoder. -/
theorem readOn_children_refused
    {before after : List Push.Child}
    {f : NumberField}
    (hwrites : Push.WritesChildren (before ++ c :: after) v)
    (hbefore : ∀ d ∈ before, d.Accepted)
    (hc : c.Refused f) :
    ((inRoot m).readOn ⟨encode (v ++ '<' :: rest), opened⟩).fault =
      some (.invalidNumber f (String.ofList c.text)) := by
  induction before generalizing m v with
  | nil =>
      cases hwrites with
      | cons blank isName first _ =>
          rw [List.append_assoc, List.append_assoc, readOn_blank blank rfl]
          exact readOn_refused isName first hc
  | cons d before ih =>
      cases hwrites with
      | cons blank isName first others =>
          rw [List.append_assoc, List.append_assoc, readOn_blank blank rfl]
          rw [readOn_accepted isName first (hbefore d List.mem_cons_self)]
          exact ih others fun e he => hbefore e (List.mem_cons_of_mem _ he)

end Children

end State

theorem isName_xml : Push.IsName "xml".toList :=
  Push.isName_of_all rfl

/-- The start tag of the root leads into the root. -/
theorem decode_document
    (target : Message)
    (inner : List Char) :
    decode target (encode (Push.document inner)) =
      (State.inRoot .blank).readOn
        ⟨encode (inner ++ '<' :: '/' :: ("xml".toList ++ ['>'])), [encode "xml".toList]⟩ := by
  have hstart : Reader.ofBytes (encode (Push.document inner)) =
      ⟨encode (Push.document inner), []⟩ := rfl
  have hroot : State.step { message := .blank } (.start (encode "xml".toList)) =
      .reading (State.inRoot .blank) := by
    rw [State.step, Markup.localName_encode isName_xml]
    rfl
  rw [decode_eq_readOn, hstart, Push.document, Push.enclose]
  exact State.readOn_of_reading (Reader.next_start isName_xml) hroot

/-- The end tag of the root ends the push. -/
theorem readOn_root (m : Message) :
    (State.inRoot m).readOn
        ⟨encode ('<' :: '/' :: ("xml".toList ++ ['>'])), [encode "xml".toList]⟩ =
      ⟨m, none⟩ :=
  State.readOn_of_finished (Reader.next_stop isName_xml) rfl

end Decoder

namespace Push

/-- **Decoding undoes writing.**  However a push is written, the decoder finds in each field what
the last child of the field says, unless a number of some child is none; then the first such child
is its fault. -/
theorem decode_written
    {children : List Child}
    {inner : List Char}
    (h : WritesChildren children inner)
    (target : Message) :
    let o := Decoder.decode target (encode (document inner))
    ((∀ c ∈ children, c.Accepted) → o.fault = none ∧ Holds o.message children) ∧
    ∀ before c after f, children = before ++ c :: after →
      (∀ d ∈ before, d.Accepted) →
      c.Refused f →
      o.fault = some (.invalidNumber f (String.ofList c.text)) := by
  intro o
  have ho : o = _ := Decoder.decode_document target inner
  constructor
  · intro hchildren
    rw [ho, Decoder.State.readOn_children h hchildren, Decoder.readOn_root]
    exact ⟨rfl, holds_fill hchildren⟩
  · rintro before c after f rfl hbefore hc
    rw [ho]
    exact Decoder.State.readOn_children_refused h hbefore hc

/-- A number that is written in pieces, after one that it replaces; then one that is none. -/
theorem decode_written_msgId :
    let first : Child := ⟨"MsgId".toList, [.text ['7']]⟩
    let second : Child := ⟨"MsgID".toList,
      [.text ['1'], .comment ['8'], .element ['i'] [.text ['9']], .cdata ['2']]⟩
    let third : Child := ⟨"Scale".toList, [.text ['x']]⟩
    (∃ inner, WritesChildren [first, second] inner ∧
      document inner =
        "<xml><MsgId>7</MsgId> <MsgID>&#x31;<!--8--><i>9</i><![CDATA[2]]></MsgID></xml>".toList ∧
      (Decoder.decode .blank (encode (document inner))).fault = none ∧
      (Decoder.decode .blank (encode (document inner))).message.msgId = 12) ∧
    ∃ inner, WritesChildren [first, third] inner ∧
      (Decoder.decode .blank (encode (document inner))).fault =
        some (.invalidNumber (.int32 .scale) "x") := by
  intro first second third
  have hseven : Field.msgId.parse? ['7'] = some (7 : Int64) :=
    Decimal.int64?_toDigits (n := 7) (by decide)
  have hfirst : first.Accepted := Child.accepted_of_value (Field.ofTag_tag Field.msgId) hseven
  have hparse : Field.msgId.parse? ['1', '2'] = some (12 : Int64) :=
    Decimal.int64?_toDigits (n := 12) (by decide)
  have hfield : second.field = some Field.msgId := Field.ofTag_eq_some_iff.2 (.inr ⟨rfl, rfl⟩)
  have hsecond : second.Accepted := Child.accepted_of_value hfield hparse
  have hthird : third.Refused (.int32 .scale) := by
    have hfield : third.field = some (.number (.int32 .scale)) :=
      Field.ofTag_tag (.number (.int32 .scale))
    exact ⟨hfield, rfl⟩
  have hnone : IsBlank [] := by
    intro c hc
    cases hc
  have hspace : IsBlank [' '] := List.all_eq_true.1 rfl
  have hx : WritesText ['x'] ['x'] := .cons (.raw (by decide) (by decide)) .nil
  have h7 : WritesText ['7'] ['7'] := .cons (.raw (by decide) (by decide)) .nil
  have h9 : WritesText ['9'] ['9'] := .cons (.raw (by decide) (by decide)) .nil
  have h1 : WritesText ['1'] ['&', '#', 'x', '3', '1', ';'] :=
    .cons (@WritesChar.hexadecimal '1' ['3', '1'] (by decide) rfl) .nil
  have hnames : IsName first.name ∧ IsName second.name ∧ IsName third.name ∧ IsName ['i'] :=
    ⟨isName_of_all rfl, isName_of_all rfl, isName_of_all rfl, isName_of_all rfl⟩
  have hpieces := Writes.text h1 (.comment (s := ['8']) (by decide) (by decide)
    (.element hnames.2.2.2 (.text h9 .nil) (.cdata (s := ['2']) (by decide) .nil)))
  have haccepted : WritesChildren [first, second] _ :=
    .cons hnone hnames.1 (.text h7 .nil) (.cons hspace hnames.2.1 hpieces (.nil hnone))
  have hrefused : WritesChildren [first, third] _ :=
    .cons hnone hnames.1 (.text h7 .nil) (.cons hspace hnames.2.2.1 (.text hx .nil) (.nil hnone))
  constructor
  · obtain ⟨hfault, hholds⟩ := (decode_written haccepted .blank).1 (by simp [hfirst, hsecond])
    have hmsgId := hholds Field.msgId
    have hlast : lastText [first, second] Field.msgId = ['1', '2'] := by
      have hfind : [second, first].find? (fun c => c.field = some Field.msgId) = some second :=
        List.find?_cons_of_pos (by simpa using hfield)
      have hreverse : [first, second].reverse = [second, first] := rfl
      rw [lastText, hreverse, hfind]
      rfl
    rw [hlast, hparse] at hmsgId
    exact ⟨_, haccepted, rfl, hfault, (Option.some.inj hmsgId).symm⟩
  · have hfault := (decode_written hrefused .blank).2 [first] third [] (.int32 .scale) rfl
      (by simp [hfirst]) hthird
    exact ⟨_, hrefused, hfault⟩
end Push
end PushGate
