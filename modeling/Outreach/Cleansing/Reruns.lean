import Outreach.Cleansing.Isolation
import Outreach.Library.Reruns

/-!
# Crashes, retries and reruns

Any number of invocations may work on one run: each starts at some step, with the
key that the step is given, goes on to the following steps, and may be cut off
before any of its accesses. As long as the answers from outside are the same (the
hooks, `as_of`, the suppression log), each step puts the same objects under the
same names, so what was cut off or done twice cannot be told from one run that
went through.
-/

namespace Outreach.Cleansing.Runs

open Outreach.Library Outreach.Suppression

set_option autoImplicit false

/-! ## The names of the objects -/

/-- The two objects that a step can put. -/
inductive Slot where
  | out (step : Step)
  | aside (step : Step)
  deriving DecidableEq

/-- The folder of an object, and what stands after the run id in its name. -/
def Slot.name : Slot → Text × Text
  | .out .schemaValidate => ("staging/pipeline/".toList, "/01_schema_valid.ndjson".toList)
  | .out .normalize => ("staging/pipeline/".toList, "/02_normalized.ndjson".toList)
  | .out .validate => ("staging/pipeline/".toList, "/03_validated.ndjson".toList)
  | .out .dedupe => ("staging/pipeline/".toList, "/04_deduped.ndjson".toList)
  | .out .suppress => ("staging/pipeline/".toList, "/05_suppressed.ndjson".toList)
  | .out .assignExternalId => ("staging/pipeline/".toList, "/06_with_ids.ndjson".toList)
  | .out .writeStaging => ("staging/cleansed/".toList, ".parquet".toList)
  | .aside .schemaValidate => ("raw/quarantine/".toList, "/01_schema.csv".toList)
  | .aside .normalize => ("raw/quarantine/".toList, "/02_normalize.csv".toList)
  | .aside .validate => ("raw/quarantine/".toList, "/03_validate.csv".toList)
  | .aside .suppress => ("staging/pipeline/".toList, "/05_excluded.ndjson".toList)
  -- the other steps put one object only
  | .aside .dedupe => ("raw/quarantine/".toList, "/04_dedupe.csv".toList)
  | .aside .assignExternalId => ("raw/quarantine/".toList, "/06_assign.csv".toList)
  | .aside .writeStaging => ("raw/quarantine/".toList, "/07_write.csv".toList)

def Slot.key (id : Text) (slot : Slot) : Text := slot.name.1 ++ (id ++ slot.name.2)

def Slot.all : List Slot :=
  [.schemaValidate, .normalize, .validate, .dedupe, .suppress, .assignExternalId,
    .writeStaging].flatMap fun step => [.out step, .aside step]

theorem Slot.mem_all (slot : Slot) : slot ∈ Slot.all := by
  cases slot with
  | out step => cases step <;> decide
  | aside step => cases step <;> decide

theorem Slot.name_injective : Function.Injective Slot.name := by
  have hall : ∀ a ∈ Slot.all, ∀ b ∈ Slot.all, a.name = b.name → a = b := by decide +kernel
  exact fun a b => hall a a.mem_all b b.mem_all

/-- Different slots have different names in every run. -/
theorem Slot.key_injective (id : Text) : Function.Injective (Slot.key id) := by
  have hfolders : ∀ a ∈ Slot.all, ∀ b ∈ Slot.all, a.name.1 = b.name.1 ∨
      (a.name.1.take 10 ≠ b.name.1.take 10 ∧ 10 ≤ a.name.1.length ∧ 10 ≤ b.name.1.length) := by
    decide +kernel
  intro a b h
  rcases hfolders a a.mem_all b b.mem_all with hsame | ⟨hne, ha, hb⟩
  · unfold Slot.key at h
    rw [hsame, List.append_cancel_left_eq, List.append_cancel_left_eq] at h
    exact Slot.name_injective (Prod.ext hsame h)
  · have htake := congrArg (List.take 10) h
    unfold Slot.key at htake
    rw [List.take_append_of_le_length ha, List.take_append_of_le_length hb] at htake
    exact absurd htake hne

/-- The objects that a step puts, the main one first. -/
def Output.objects (o : Output) : List (Text × Content) := (o.key, o.out) :: o.aside.toList

section Names

variable {ν : Type} {U : UnicodeData} {P : PhoneNumbers ν} {env : RunEnv} {id : Text}

theorem Output.quarantine_aside {κ : Type} [DecidableEq κ] {o : Output} {step : String}
    {names : List (List κ)} {content : Content} (hnone : o.aside = none) :
    ∀ a ∈ (o.quarantine id step names content).aside,
      a = (quarantineKey id step.toList, content) := by
  unfold Output.quarantine
  split
  · rw [hnone]
    exact fun a ha => nomatch ha
  · split
    · exact fun a ha => (Option.some.inj ha).symm
    · rw [hnone]
      exact fun a ha => nomatch ha

/-- A step puts its objects into its own slots. -/
theorem handler_slots {step : Step} {content : Content} {o : Output}
    (h : handler U P env id step content = some o) :
    o.key = (Slot.out step).key id ∧ ∀ a ∈ o.aside, a.1 = (Slot.aside step).key id := by
  unfold handler at h
  split at h
  · obtain ⟨⟨valid, quarantined⟩, -, h⟩ := Option.bind_eq_some_iff.mp h
    obtain rfl := Option.some.inj h
    refine ⟨Output.quarantine_key .., fun a ha => ?_⟩
    rw [Output.quarantine_aside rfl a ha]
    rfl
  · obtain ⟨out, -, h⟩ := Option.bind_eq_some_iff.mp h
    obtain rfl := Option.some.inj h
    refine ⟨Output.quarantine_key .., fun a ha => ?_⟩
    rw [Output.quarantine_aside rfl a ha]
    rfl
  · obtain rfl := Option.some.inj h
    refine ⟨Output.quarantine_key .., fun a ha => ?_⟩
    rw [Output.quarantine_aside rfl a ha]
    rfl
  · obtain rfl := Option.some.inj h
    exact ⟨rfl, fun a ha => nomatch ha⟩
  · obtain ⟨out, -, h⟩ := Option.bind_eq_some_iff.mp h
    obtain rfl := Option.some.inj h
    refine ⟨rfl, fun a ha => ?_⟩
    obtain rfl := Option.some.inj ha
    rfl
  · obtain ⟨out, -, h⟩ := Option.bind_eq_some_iff.mp h
    obtain rfl := Option.some.inj h
    exact ⟨rfl, fun a ha => nomatch ha⟩
  · split at h
    · obtain rfl := Option.some.inj h
      exact ⟨rfl, fun a ha => nomatch ha⟩
    · exact nomatch h
  · exact nomatch h

end Names

theorem Slot.owned (id : Text) (slot : Slot) : Owned id (slot.key id) := by
  cases slot with
  | out step =>
    cases step with
    | writeStaging => exact .cleansed
    | _ => exact .step _
  | aside step =>
    cases step with
    | suppress => exact .step _
    | schemaValidate => exact .quarantine "01_schema".toList
    | normalize => exact .quarantine "02_normalize".toList
    | validate => exact .quarantine "03_validate".toList
    | dedupe => exact .quarantine "04_dedupe".toList
    | assignExternalId => exact .quarantine "06_assign".toList
    | writeStaging => exact .quarantine "07_write".toList

/-! ## What a run puts that goes through -/

section Produced

variable {ν : Type} (U : UnicodeData) (P : PhoneNumbers ν) (env : RunEnv) (id key : Text)
  (bucket : Text → Option Content)

/-- What a step puts when every step before it has put its own. -/
inductive Produced : Step → Output → Prop where
  | first {content : Content} {o : Output} : bucket key = some content →
      handler U P env id .schemaValidate content = some o → Produced .schemaValidate o
  | next {step following : Step} {o o' : Output} : Produced step o →
      step.next = some following → handler U P env id following o.out = some o' →
      Produced following o'

/-- The key that an invocation of the step is given. -/
def inputKey : Step → Text
  | .schemaValidate => key
  | .normalize => (Slot.out .schemaValidate).key id
  | .validate => (Slot.out .normalize).key id
  | .dedupe => (Slot.out .validate).key id
  | .suppress => (Slot.out .dedupe).key id
  | .assignExternalId => (Slot.out .suppress).key id
  | .writeStaging => (Slot.out .assignExternalId).key id

/-- The one content that an object of the bucket can have. -/
def Settles (k : Text) (v : Content) : Prop :=
  ((∀ slot : Slot, slot.key id ≠ k) ∧ bucket k = some v) ∨
    ∃ step o, Produced U P env id key bucket step o ∧ (k, v) ∈ o.objects

/-- What an invocation holds, it has from the settled objects. -/
def Phase.Fine : Phase → Prop
  | .get step k => k = inputKey id key step
  | .putOut step o => Produced U P env id key bucket step o
  | .putAside step o aside => Produced U P env id key bucket step o ∧ o.aside = some aside
  | .ended _ => True

/-- The step has returned, and its objects are there. -/
def Stored (store : Text → Option Content) (step : Step) : Prop :=
  ∃ o, Produced U P env id key bucket step o ∧ o.returns = true ∧
    ∀ kv ∈ o.objects, store kv.1 = some kv.2

def Step.index : Step → Nat
  | .schemaValidate => 0
  | .normalize => 1
  | .validate => 2
  | .dedupe => 3
  | .suppress => 4
  | .assignExternalId => 5
  | .writeStaging => 6

/-- What an invocation that began with step 1 has left behind it. -/
def Phase.Behind (store : Text → Option Content) : Phase → Prop
  | .get step _ => ∀ st : Step, st.index < step.index → Stored U P env id key bucket store st
  | .putOut step _ => ∀ st : Step, st.index < step.index → Stored U P env id key bucket store st
  | .putAside step o _ => (∀ st : Step, st.index < step.index →
      Stored U P env id key bucket store st) ∧ store o.key = some o.out
  | .ended true => ∀ st, Stored U P env id key bucket store st
  | .ended false => True

variable {U P env id key bucket}

theorem Step.next_index {step following : Step} (h : step.next = some following) :
    following.index = step.index + 1 := by
  cases step with
  | writeStaging => exact nomatch h
  | _ =>
    cases h
    rfl

theorem inputKey_next {step following : Step} (h : step.next = some following) :
    inputKey id key following = (Slot.out step).key id := by
  cases step with
  | writeStaging => exact nomatch h
  | _ =>
    cases h
    rfl

theorem Step.eq_of_index {a b : Step} (h : a.index = b.index) : a = b := by
  cases a <;> cases b <;> first | rfl | exact absurd h (by decide)

theorem Produced.handled {step : Step} {o : Output} (h : Produced U P env id key bucket step o) :
    ∃ content, handler U P env id step content = some o := by
  cases h with
  | first _ ho => exact ⟨_, ho⟩
  | next _ _ ho => exact ⟨_, ho⟩

/-- A step produces one output. -/
theorem Produced.unique {step : Step} {o o' : Output} (h : Produced U P env id key bucket step o)
    (h' : Produced U P env id key bucket step o') : o = o' := by
  induction h generalizing o' with
  | first hc ho =>
    cases h' with
    | first hc' ho' =>
      cases hc.symm.trans hc'
      exact Option.some.inj (ho.symm.trans ho')
    | next _ hnext _ =>
      have hindex := Step.next_index hnext
      exact nomatch hindex
  | next hprev hnext ho ih =>
    cases h' with
    | first _ _ =>
      have hindex := Step.next_index hnext
      exact nomatch hindex
    | next hprev' hnext' ho' =>
      have hindex := Step.next_index hnext
      have hindex' := Step.next_index hnext'
      obtain rfl := Step.eq_of_index (Nat.succ.inj (hindex.symm.trans hindex'))
      obtain rfl := ih hprev'
      exact Option.some.inj (ho.symm.trans ho')

/-- Which slot an object of a step is in. -/
theorem Produced.slot {step : Step} {o : Output} (h : Produced U P env id key bucket step o)
    {k : Text} {v : Content} (hkv : (k, v) ∈ o.objects) :
    (k = (Slot.out step).key id ∧ v = o.out) ∨
      (k = (Slot.aside step).key id ∧ o.aside = some (k, v)) := by
  obtain ⟨content, ho⟩ := h.handled
  obtain ⟨hkey, haside⟩ := handler_slots ho
  rcases List.mem_cons.mp hkv with heq | hmem
  · cases heq
    exact Or.inl ⟨hkey, rfl⟩
  · have ha := Option.mem_toList.mp hmem
    exact Or.inr ⟨haside _ ha, ha⟩

/-- No object can have two contents. -/
theorem Settles.unique {k : Text} {v v' : Content} (h : Settles U P env id key bucket k v)
    (h' : Settles U P env id key bucket k v') : v = v' := by
  rcases h with ⟨hout, hv⟩ | ⟨step, o, ho, hkv⟩
  · rcases h' with ⟨-, hv'⟩ | ⟨step', o', ho', hkv'⟩
    · exact Option.some.inj (hv.symm.trans hv')
    · rcases ho'.slot hkv' with ⟨rfl, -⟩ | ⟨rfl, -⟩ <;> exact absurd rfl (hout _)
  · rcases h' with ⟨hout, -⟩ | ⟨step', o', ho', hkv'⟩
    · rcases ho.slot hkv with ⟨rfl, -⟩ | ⟨rfl, -⟩ <;> exact absurd rfl (hout _)
    · rcases ho.slot hkv with ⟨hk, hv⟩ | ⟨hk, hv⟩ <;>
        rcases ho'.slot hkv' with ⟨hk', hv'⟩ | ⟨hk', hv'⟩ <;>
        have hslot := Slot.key_injective id (hk.symm.trans hk')
      · cases hslot
        rw [hv, hv', ho.unique ho']
      · exact nomatch hslot
      · exact nomatch hslot
      · cases hslot
        rw [ho.unique ho', hv'] at hv
        exact (Prod.mk.inj (Option.some.inj hv)).2.symm

/-! ## Invocations -/

theorem fine_finish {step : Step} {o : Output} (ho : Produced U P env id key bucket step o) :
    (finish step o).Fine U P env id key bucket := by
  obtain ⟨content, hcontent⟩ := ho.handled
  unfold finish
  split
  · split
    · trivial
    · rename_i following hnext
      show o.key = _
      rw [(handler_slots hcontent).1, inputKey_next hnext]
  · trivial

/-- What is settled in the main slot of a step is what the step produces. -/
theorem Settles.out {step : Step} {v : Content}
    (h : Settles U P env id key bucket ((Slot.out step).key id) v) :
    ∃ o, Produced U P env id key bucket step o ∧ v = o.out := by
  rcases h with ⟨hout, -⟩ | ⟨step', o, ho, hkv⟩
  · exact absurd rfl (hout (.out step))
  · rcases ho.slot hkv with ⟨hk, hv⟩ | ⟨hk, -⟩
    · cases Slot.key_injective id hk
      exact ⟨o, ho, hv⟩
    · exact nomatch Slot.key_injective id hk

/-- A step that reads the settled object produces what it always does. -/
theorem produced_of_read (hkey : ∀ slot : Slot, slot.key id ≠ key) {step : Step} {v : Content}
    {o : Output} (hv : Settles U P env id key bucket (inputKey id key step) v)
    (ho : handler U P env id step v = some o) : Produced U P env id key bucket step o := by
  have hlater : ∀ prev : Step, prev.next = some step → Produced U P env id key bucket step o := by
    intro prev hnext
    rw [inputKey_next hnext] at hv
    obtain ⟨before, hbefore, rfl⟩ := hv.out
    exact hbefore.next hnext ho
  cases step with
  | schemaValidate =>
    rcases hv with ⟨-, hv⟩ | ⟨step', o', ho', hkv⟩
    · exact .first hv ho
    · rcases ho'.slot hkv with ⟨hk, -⟩ | ⟨hk, -⟩ <;> exact absurd hk.symm (hkey _)
  | normalize => exact hlater .schemaValidate rfl
  | validate => exact hlater .normalize rfl
  | dedupe => exact hlater .validate rfl
  | suppress => exact hlater .dedupe rfl
  | assignExternalId => exact hlater .suppress rfl
  | writeStaging => exact hlater .assignExternalId rfl

theorem fine_read {step : Step} {seen : Option Content}
    (h : ∀ v o, seen = some v → handler U P env id step v = some o →
      Produced U P env id key bucket step o) :
    Phase.Fine U P env id key bucket (match seen.bind (handler U P env id step) with
      | none => .ended false
      | some o => .putOut step o) := by
  cases hread : seen.bind (handler U P env id step) with
  | none => trivial
  | some o =>
    obtain ⟨v, hv, ho⟩ := Option.bind_eq_some_iff.mp hread
    exact h v o hv ho

/-- Whoever reads settled objects writes settled objects. -/
theorem steps_predetermined (hkey : ∀ slot : Slot, slot.key id ≠ key) {ι : Type} :
    Predetermined (fun _ : ι => action U P env id) (Settles U P env id key bucket)
      (Phase.Fine U P env id key bucket) where
  read i phase k go seen hfine ha hseen := by
    cases phase with
    | get step k' =>
      obtain ⟨rfl, rfl⟩ := StoreAction.read.inj (Option.some.inj ha)
      obtain rfl := hfine
      exact fine_read fun v o hv ho => produced_of_read hkey (hseen v hv) ho
    | putOut step o => exact nomatch ha
    | putAside step o aside => exact nomatch ha
    | ended returned => exact nomatch ha
  write i phase k v go hfine ha := by
    cases phase with
    | get step k' => exact nomatch ha
    | putOut step o =>
      obtain ⟨rfl, rfl, rfl⟩ := StoreAction.write.inj (Option.some.inj ha)
      refine ⟨Or.inr ⟨step, o, hfine, List.mem_cons_self⟩, ?_⟩
      cases haside : o.aside with
      | none => exact fine_finish hfine
      | some aside => exact ⟨hfine, haside⟩
    | putAside step o aside =>
      obtain ⟨rfl, rfl, rfl⟩ := StoreAction.write.inj (Option.some.inj ha)
      refine ⟨Or.inr ⟨step, o, hfine.1, List.mem_cons_of_mem _ ?_⟩, fine_finish hfine.1⟩
      exact Option.mem_toList.mpr hfine.2
    | ended returned => exact nomatch ha

theorem Stored.later {a b : Text → Option Content} {step : Step}
    (h : Stored U P env id key bucket a step) (hkeeps : ∀ k v, a k = some v → b k = some v) :
    Stored U P env id key bucket b step := by
  obtain ⟨o, ho, hreturns, hall⟩ := h
  exact ⟨o, ho, hreturns, fun kv hkv => hkeeps _ _ (hall kv hkv)⟩

theorem Phase.Behind.later {a b : Text → Option Content} {phase : Phase}
    (h : phase.Behind U P env id key bucket a) (hkeeps : ∀ k v, a k = some v → b k = some v) :
    phase.Behind U P env id key bucket b := by
  cases phase with
  | get step k => exact fun st hst => (h st hst).later hkeeps
  | putOut step o => exact fun st hst => (h st hst).later hkeeps
  | putAside step o aside =>
    exact ⟨fun st hst => (h.1 st hst).later hkeeps, hkeeps _ _ h.2⟩
  | ended returned =>
    cases returned with
    | true => exact fun st => (h st).later hkeeps
    | false => trivial

/-- When the objects of a step are there too, the next step has everything behind it. -/
theorem behind_finish {store : Text → Option Content} {step : Step} {o : Output}
    (hbefore : ∀ st : Step, st.index < step.index → Stored U P env id key bucket store st)
    (ho : Produced U P env id key bucket step o)
    (hobjects : ∀ kv ∈ o.objects, store kv.1 = some kv.2) :
    (finish step o).Behind U P env id key bucket store := by
  unfold finish
  split
  · rename_i hreturns
    have hupto : ∀ st : Step, st.index < step.index + 1 →
        Stored U P env id key bucket store st := by
      intro st hst
      rcases Nat.lt_succ_iff_lt_or_eq.mp hst with hlt | heq
      · exact hbefore st hlt
      · rw [Step.eq_of_index heq]
        exact ⟨o, ho, hreturns, hobjects⟩
    split
    · rename_i hlast
      have hmax : ∀ st : Step, st.index < step.index + 1 := by
        intro st
        cases step with
        | writeStaging => cases st <;> decide
        | _ => exact nomatch hlast
      exact fun st => hupto st (hmax st)
    · rename_i following hnext
      intro st hst
      rw [Step.next_index hnext] at hst
      exact hupto st hst
  · trivial

/-- An access of an invocation leaves behind it what it has put. -/
theorem behind_perform {ι : Type} [DecidableEq ι] {s : Shared ι Text Content Phase} {i : ι}
    {a : StoreAction Text Content Phase} (hfine : (s.phase i).Fine U P env id key bucket)
    (hbehind : (s.phase i).Behind U P env id key bucket s.store)
    (ha : action U P env id (s.phase i) = some a)
    (hkeeps : ∀ k v, s.store k = some v → (s.perform i a).store k = some v) :
    ((s.perform i a).phase i).Behind U P env id key bucket (s.perform i a).store := by
  rw [s.perform_phase_self]
  have hlater := hbehind.later hkeeps
  cases hphase : s.phase i with
  | get step k =>
    rw [hphase] at ha hlater
    obtain rfl := Option.some.inj ha
    simp only [StoreAction.next]
    split
    · trivial
    · exact hlater
  | putOut step o =>
    rw [hphase] at ha hlater hfine
    obtain rfl := Option.some.inj ha
    have hput : ∀ phase : Phase,
        (s.perform i (.write o.key o.out phase)).store o.key = some o.out :=
      fun _ => Function.update_self ..
    simp only [StoreAction.next]
    cases haside : o.aside with
    | none =>
      refine behind_finish hlater hfine fun kv hkv => ?_
      rw [Output.objects, haside] at hkv
      rw [List.mem_singleton.mp hkv]
      exact hput _
    | some aside =>
      refine ⟨hlater, ?_⟩
      exact hput _
  | putAside step o aside =>
    rw [hphase] at ha hlater hfine
    obtain rfl := Option.some.inj ha
    refine behind_finish hlater.1 hfine.1 fun kv hkv => ?_
    rcases List.mem_cons.mp hkv with rfl | hkv
    · exact hlater.2
    · rw [hfine.2, Option.toList_some] at hkv
      rw [List.mem_singleton.mp hkv]
      exact Function.update_self ..
  | ended returned =>
    rw [hphase] at ha
    cases ha

end Produced

/-! ## Any number of invocations -/

section Invocations

variable {ν ι κ : Type} [DecidableEq ι] [DecidableEq κ] {U : UnicodeData} {P : PhoneNumbers ν}
  {env : RunEnv} {id key : Text} {bucket : Text → Option Content}

/-- Every invocation is about to read the object that it is given. -/
def invoked (id key : Text) (bucket : Text → Option Content) (start : ι → Step) :
    Shared ι Text Content Phase where
  phase i := .get (start i) (inputKey id key (start i))
  store := bucket

omit [DecidableEq ι] in
theorem invoked_consistent (hfresh : ∀ slot : Slot, bucket (slot.key id) = none)
    (start : ι → Step) :
    Consistent (Settles U P env id key bucket) (Phase.Fine U P env id key bucket)
      (invoked id key bucket start) where
  store k v hk := by
    refine Or.inl ⟨fun slot hslot => ?_, hk⟩
    have hnone := hfresh slot
    rw [hslot] at hnone
    exact nomatch hnone.symm.trans hk
  phase _ := rfl

/-- When an invocation that began with step 1 has returned from the last, every step has
returned, and every object that was there is there. -/
theorem returned_stored (hkey : ∀ slot : Slot, slot.key id ≠ key)
    (hfresh : ∀ slot : Slot, bucket (slot.key id) = none) {start : ι → Step}
    {t : Shared ι Text Content Phase} {es : List ι}
    (hr : (interleaving fun _ => action U P env id).run (invoked id key bucket start) es = some t)
    {i : ι} (hi : start i = .schemaValidate) (hdone : t.phase i = .ended true) :
    (∀ step, Stored U P env id key bucket t.store step) ∧
      ∀ k v, bucket k = some v → t.store k = some v := by
  have d : Predetermined (fun _ : ι => action U P env id) (Settles U P env id key bucket)
      (Phase.Fine U P env id key bucket) := steps_predetermined hkey
  have hone : ∀ k v v', Settles U P env id key bucket k v → Settles U P env id key bucket k v' →
      v = v' := fun _ _ _ h h' => h.unique h'
  have hinit : Consistent (Settles U P env id key bucket) (Phase.Fine U P env id key bucket)
      (invoked id key bucket start) := invoked_consistent hfresh start
  have hstep : ∀ s j u, (Consistent (Settles U P env id key bucket)
        (Phase.Fine U P env id key bucket) s ∧
        (s.phase i).Behind U P env id key bucket s.store) →
      (interleaving fun _ => action U P env id).step s j = some u →
      Consistent (Settles U P env id key bucket) (Phase.Fine U P env id key bucket) u ∧
        (u.phase i).Behind U P env id key bucket u.store := by
    intro s j u hs hstep
    have hkeeps : ∀ k v, s.store k = some v → u.store k = some v :=
      fun k v hk => d.step_keeps hone hs.1 hstep hk
    refine ⟨d.step hs.1 hstep, ?_⟩
    obtain ⟨a, ha, rfl⟩ := (interleaving_step _).mp hstep
    by_cases hj : i = j
    · subst hj
      exact behind_perform (hs.1.phase i) hs.2 ha hkeeps
    · rw [s.perform_phase_ne a hj]
      exact hs.2.later hkeeps
  have hbehind : ((invoked id key bucket start).phase i).Behind U P env id key bucket
      (invoked id key bucket start).store := by
    have hphase : (invoked id key bucket start).phase i =
        .get (start i) (inputKey id key (start i)) := rfl
    rw [hphase, hi]
    exact fun st hst => absurd hst (Nat.not_lt_zero _)
  have hall := ((interleaving _).run_preserves hstep ⟨hinit, hbehind⟩ hr).2
  rw [hdone] at hall
  exact ⟨hall, fun k v hk => d.run_keeps hone hinit hr hk⟩

/-- Then everything that can be settled is there. -/
theorem returned_all {store : Text → Option Content}
    (hstored : (∀ step, Stored U P env id key bucket store step) ∧
      ∀ k v, bucket k = some v → store k = some v) {k : Text} {v : Content}
    (hv : Settles U P env id key bucket k v) : store k = some v := by
  rcases hv with ⟨-, hbucket⟩ | ⟨step, o, ho, hkv⟩
  · exact hstored.2 k v hbucket
  · obtain ⟨o', ho', -, hobjects⟩ := hstored.1 step
    rw [ho.unique ho'] at hkv
    exact hobjects _ hkv

/-- Crashes, retries and reruns leave no trace where the answers are the same (the one `env`
of all the invocations) and no object of the run was there before: whatever invocations of
the steps have worked on a run, in whatever order and cut off wherever, each object that is
there is the one that any run from step 1 to the end leaves; and where one of them has got
from step 1 to the end, all the objects are the same. -/
theorem reruns_agree (hkey : enrichmentPrefix <+: key)
    (hfresh : ∀ slot : Slot, bucket (slot.key id) = none) {start : ι → Step} {start' : κ → Step}
    {t : Shared ι Text Content Phase} {t' : Shared κ Text Content Phase} {es : List ι}
    {es' : List κ}
    (hr : (interleaving fun _ => action U P env id).run (invoked id key bucket start) es = some t)
    (hr' : (interleaving fun _ => action U P env id).run (invoked id key bucket start') es' =
      some t')
    {j : κ} (hj : start' j = .schemaValidate) (hdone : t'.phase j = .ended true) :
    (∀ k v, t.store k = some v → t'.store k = some v) ∧
      ((∃ i, start i = .schemaValidate ∧ t.phase i = .ended true) → t.store = t'.store) := by
  have hslot : ∀ slot : Slot, slot.key id ≠ key :=
    fun slot he => (slot.owned id).not_enrichment (he ▸ hkey)
  have hsettled : ∀ k v, t.store k = some v → Settles U P env id key bucket k v :=
    (Predetermined.run (steps_predetermined hslot) (invoked_consistent hfresh start) hr).store
  have hsettled' : ∀ k v, t'.store k = some v → Settles U P env id key bucket k v :=
    (Predetermined.run (steps_predetermined hslot) (invoked_consistent hfresh start') hr').store
  have hall' := returned_stored hslot hfresh hr' hj hdone
  refine ⟨fun k v hk => returned_all hall' (hsettled k v hk), ?_⟩
  rintro ⟨i, hi, hdone'⟩
  funext k
  refine Option.ext fun v => ⟨fun hk => returned_all hall' (hsettled k v hk), fun hk => ?_⟩
  exact returned_all (returned_stored hslot hfresh hr hi hdone') (hsettled' k v hk)

end Invocations

/-! ## A run cut off twice -/

def Phase.returned : Phase → Bool
  | .ended returned => returned
  | _ => false

theorem Phase.eq_of_returned {phase : Phase} (h : phase.returned = true) :
    phase = .ended true := by
  cases phase with
  | ended returned => exact congrArg Phase.ended h
  | _ => exact nomatch h

/-- The first invocation is cut off after step 1 has put its object, the second after its
own step 1; the third goes through. -/
def cutOffTwice : List (Fin 3) :=
  [0, 0, 1, 1, 1] ++ List.replicate 15 2

def onceThrough : List (Fin 1) := List.replicate 15 0

theorem reruns_agree_weekly :
    ∃ t t', (interleaving fun _ => action .plain .e164 vendorEnv "r".toList).run
        (invoked "r".toList (weeklyKey false) (twoFiles weeklyKey) fun _ => .schemaValidate)
        cutOffTwice = some t ∧
      (interleaving fun _ => action .plain .e164 vendorEnv "r".toList).run
        (invoked "r".toList (weeklyKey false) (twoFiles weeklyKey) fun _ => .schemaValidate)
        onceThrough = some t' ∧
      t.phase 2 = .ended true ∧ t.store = t'.store := by
  have hruns : ((interleaving fun _ => action .plain .e164 vendorEnv "r".toList).run
      (invoked "r".toList (weeklyKey false) (twoFiles weeklyKey) fun _ => .schemaValidate)
      cutOffTwice).map (fun t => (t.phase 2).returned) = some true := by decide +kernel
  have hruns' : ((interleaving fun _ => action .plain .e164 vendorEnv "r".toList).run
      (invoked "r".toList (weeklyKey false) (twoFiles weeklyKey) fun _ => .schemaValidate)
      onceThrough).map (fun t => (t.phase 0).returned) = some true := by decide +kernel
  obtain ⟨t, ht, hdone⟩ := Option.map_eq_some_iff.mp hruns
  obtain ⟨t', ht', hdone'⟩ := Option.map_eq_some_iff.mp hruns'
  have hfresh : ∀ slot : Slot, twoFiles weeklyKey (slot.key "r".toList) = none := by
    have hall : ∀ slot ∈ Slot.all, (twoFiles weeklyKey (slot.key "r".toList)).isNone = true := by
      decide +kernel
    exact fun slot => Option.isNone_iff_eq_none.mp (hall slot slot.mem_all)
  refine ⟨t, t', ht, ht', Phase.eq_of_returned hdone, ?_⟩
  exact (reruns_agree (by decide) hfresh ht ht' rfl (Phase.eq_of_returned hdone')).2
    ⟨2, rfl, Phase.eq_of_returned hdone⟩

end Outreach.Cleansing.Runs
