import Outreach.Library.Machine
import Outreach.Salesforce.Records

/-!
# Template versions: the two validation rules of `Reply_Template__c`

Both rules look at one update, from the record before it to the record after it.
What a template was approved with is remembered here beside the record, so that
whole histories can be told apart from single updates. An approved template that
is taken back to review is open to edits again.
-/

namespace Outreach.Salesforce

open Outreach.Library

set_option autoImplicit false

/-- `Approved_Body_Is_Immutable` -/
def approvedBodyIsImmutable (prior new : ReplyTemplate) : Bool :=
  decide (new.body ≠ prior.body) && decide (prior.status = .approved)

/-- `Approved_Cannot_Return_To_Draft` -/
def approvedCannotReturnToDraft (prior new : ReplyTemplate) : Bool :=
  decide (prior.status = .approved) && decide (new.status = .draft)

/-- The fields that an update writes. -/
structure TemplateEdit where
  status : TemplateStatus
  body : Option Text
  bodyFits : fitsIn maxBody body = true

def TemplateEdit.write (e : TemplateEdit) (t : ReplyTemplate) : ReplyTemplate :=
  { t with status := e.status, body := e.body, bodyFits := e.bodyFits }

/-- `update`; `none` is the error of a validation rule. -/
def ReplyTemplate.update (t : ReplyTemplate) (e : TemplateEdit) : Option ReplyTemplate :=
  if approvedBodyIsImmutable t (e.write t) || approvedCannotReturnToDraft t (e.write t) then none
  else some (e.write t)

/-- A template with the body that it was first approved with. -/
structure TemplateHistory where
  template : ReplyTemplate
  approvedBody : Option (Option Text)

namespace TemplateHistory

/-- The body is on record from the first approval on. -/
def recorded (approvedBody : Option (Option Text)) (t : ReplyTemplate) : Option (Option Text) :=
  match approvedBody with
  | some body => some body
  | none => if t.status = .approved then some t.body else none

def ofTemplate (t : ReplyTemplate) : TemplateHistory := ⟨t, recorded none t⟩

def step (s : TemplateHistory) (e : TemplateEdit) : Option TemplateHistory :=
  (s.template.update e).map fun t => ⟨t, recorded s.approvedBody t⟩

/-- After an update that the rules accept. -/
def written (s : TemplateHistory) (e : TemplateEdit) : TemplateHistory :=
  ⟨e.write s.template, recorded s.approvedBody (e.write s.template)⟩

/-- The body is the one that was first approved, if any was. -/
def Locked (s : TemplateHistory) : Prop :=
  ∀ body, s.approvedBody = some body → s.template.body = body

/-- Once the template has been approved, an update that finds it in another status
leaves the body alone. -/
def LeavesBody (s : TemplateHistory) (e : TemplateEdit) : Prop :=
  s.approvedBody ≠ none → s.template.status ≠ .approved → e.body = s.template.body

end TemplateHistory

/-- The accepted updates of one record. -/
def templateUpdates : Machine TemplateHistory TemplateEdit := ⟨TemplateHistory.step⟩

theorem update_eq_some {t t' : ReplyTemplate} {e : TemplateEdit} :
    t.update e = some t' ↔
      (t.status = .approved → e.body = t.body ∧ e.status ≠ .draft) ∧ t' = e.write t := by
  unfold ReplyTemplate.update approvedBodyIsImmutable approvedCannotReturnToDraft
  have hbody : (e.write t).body = e.body := rfl
  have hstatus : (e.write t).status = e.status := rfl
  rw [hbody, hstatus]
  by_cases ha : t.status = .approved
  · by_cases hb : e.body = t.body
    · by_cases hd : e.status = .draft <;> simp [ha, hb, hd, eq_comm]
    · simp [ha, hb]
  · simp [ha, eq_comm]

namespace TemplateHistory

variable {s s' : TemplateHistory} {e : TemplateEdit} {es : List TemplateEdit}

theorem step_eq_some :
    templateUpdates.step s e = some s' ↔
      (s.template.status = .approved → e.body = s.template.body ∧ e.status ≠ .draft) ∧
        s' = s.written e := by
  show (s.template.update e).map _ = some s' ↔ _
  rw [Option.map_eq_some_iff]
  constructor
  · intro h
    obtain ⟨t, ht, rfl⟩ := h
    obtain ⟨hrules, rfl⟩ := update_eq_some.mp ht
    exact ⟨hrules, rfl⟩
  · intro h
    obtain ⟨hrules, rfl⟩ := h
    exact ⟨_, update_eq_some.mpr ⟨hrules, rfl⟩, rfl⟩

theorem ofTemplate_locked (t : ReplyTemplate) : (ofTemplate t).Locked := by
  intro body h
  simp only [ofTemplate, recorded] at h
  split at h
  · exact Option.some.inj h
  · cases h

/-- A locked template stays locked exactly when the update leaves the body alone where
no rule does. -/
theorem step_locked (hs : templateUpdates.step s e = some s') (h : s.Locked) :
    s'.Locked ↔ s.LeavesBody e := by
  obtain ⟨hrules, rfl⟩ := step_eq_some.mp hs
  cases hb : s.approvedBody with
  | none =>
    have hfirst : s.written e = ofTemplate (e.write s.template) := by
      rw [written, hb]
      rfl
    rw [hfirst]
    exact iff_of_true (ofTemplate_locked _) fun hne => absurd hb hne
  | some body =>
    have hkept : (s.written e).approvedBody = some body := by
      rw [written, hb]
      rfl
    have hbody : s.template.body = body := h body hb
    constructor
    · intro hnew _ _
      have hwritten : e.body = body := hnew body hkept
      rw [hwritten, hbody]
    · intro hleaves body' hbody'
      obtain rfl : body = body' := Option.some.inj (hkept.symm.trans hbody')
      show e.body = body
      rw [← hbody]
      by_cases ha : s.template.status = .approved
      · exact (hrules ha).1
      · exact hleaves (hb ▸ Option.some_ne_none body) ha

/-- The approved body is never seen to change exactly when no update changes it while
the template is out of `Approved`. -/
theorem approvedBody_immutable_iff {t : ReplyTemplate} {s : TemplateHistory}
    (hr : templateUpdates.run (ofTemplate t) es = some s) :
    (∀ pre post u, es = pre ++ post → templateUpdates.run (ofTemplate t) pre = some u → u.Locked) ↔
      templateUpdates.Along LeavesBody (ofTemplate t) es := by
  have hstep : ∀ s e s', s.Locked → templateUpdates.step s e = some s' →
      (s'.Locked ↔ s.LeavesBody e) := fun _ _ _ h hs => step_locked hs h
  exact templateUpdates.run_always_iff hstep (ofTemplate_locked t) hr

/-- Whatever was approved, three accepted updates later the record can be approved with any
other body. -/
theorem reapproved_with_any_body (s : TemplateHistory) {body : Option Text}
    (hfits : fitsIn maxBody body = true) :
    ∃ es s', templateUpdates.run s es = some s' ∧ s'.template.status = .approved ∧
      s'.template.body = body ∧ s'.template.id = s.template.id ∧
        s'.template.version = s.template.version := by
  let back : TemplateEdit := ⟨.inReview, s.template.body, s.template.bodyFits⟩
  let edit : TemplateEdit := ⟨.inReview, body, hfits⟩
  let approve : TemplateEdit := ⟨.approved, body, hfits⟩
  refine ⟨[back, edit, approve], ((s.written back).written edit).written approve, ?_, rfl, rfl,
    rfl, rfl⟩
  have hback : templateUpdates.step s back = some (s.written back) :=
    step_eq_some.mpr ⟨fun _ => ⟨rfl, fun h => nomatch h⟩, rfl⟩
  have hedit : templateUpdates.step (s.written back) edit = some ((s.written back).written edit) :=
    step_eq_some.mpr ⟨(fun h => nomatch h), rfl⟩
  have happrove : templateUpdates.step ((s.written back).written edit) approve =
      some (((s.written back).written edit).written approve) :=
    step_eq_some.mpr ⟨(fun h => nomatch h), rfl⟩
  apply templateUpdates.run_cons_some.mpr
  refine ⟨_, hback, templateUpdates.run_cons_some.mpr ?_⟩
  exact ⟨_, hedit, templateUpdates.run_singleton.mpr happrove⟩

theorem hello_fits : fitsIn maxBody (some "Hello".toList) = true := by decide

/-- An approved greeting. -/
def greeting : ReplyTemplate where
  id := 0
  name := "First Touch".toList
  status := .approved
  body := some "Hello".toList
  version := some 1
  bodyFits := hello_fits

/-- Back to review, another text, and approved again. -/
def reworded : List TemplateEdit :=
  [⟨.inReview, some "Hello".toList, hello_fits⟩, ⟨.inReview, some "Buy now".toList, rfl⟩,
    ⟨.approved, some "Buy now".toList, rfl⟩]

theorem approvedBody_immutable_iff_reworded :
    ∃ s, templateUpdates.run (ofTemplate greeting) reworded = some s ∧
      ((∀ pre post u, reworded = pre ++ post →
          templateUpdates.run (ofTemplate greeting) pre = some u → u.Locked) ↔
        templateUpdates.Along LeavesBody (ofTemplate greeting) reworded) := by
  have hruns : (templateUpdates.run (ofTemplate greeting) reworded).isSome = true := by decide
  obtain ⟨s, hs⟩ := Option.isSome_iff_exists.mp hruns
  exact ⟨s, hs, approvedBody_immutable_iff hs⟩

theorem greeting_reworded :
    ∃ s, templateUpdates.run (ofTemplate greeting) reworded = some s ∧
      s.template.status = .approved ∧ s.template.version = greeting.version ∧
      ¬ ∀ pre post u, reworded = pre ++ post →
        templateUpdates.run (ofTemplate greeting) pre = some u → u.Locked := by
  have hruns : (templateUpdates.run (ofTemplate greeting) reworded).map (fun s =>
      (s.template.status, s.template.version, s.template.body, s.approvedBody)) =
      some (.approved, some 1, some "Buy now".toList, some (some "Hello".toList)) := rfl
  obtain ⟨s, hs, hfields⟩ := Option.map_eq_some_iff.mp hruns
  simp only [Prod.mk.injEq] at hfields
  obtain ⟨hstatus, hversion, hbody, happroved⟩ := hfields
  refine ⟨s, hs, hstatus, hversion, fun hlocked => ?_⟩
  have hsame := hlocked reworded [] s (List.append_nil _).symm hs _ happroved
  rw [hbody] at hsame
  exact absurd hsame (by decide)

end TemplateHistory

end Outreach.Salesforce
