import Outreach.Library.Machine
import Outreach.Suppression.Store

/-!
# Stores over one log: freshness and monotonicity

Any number of `SuppressionStore` instances work over one bucket under one clock.
The calls on one instance follow one another; the steps of different instances
interleave freely. A put lands at one instant. A reload lists a page, reads its
objects one by one and goes on to the next page, while others keep putting.
Nothing is claimed of threads that share an instance.
-/

namespace Outreach.Suppression

open Outreach.Library Outreach.Cleansing

set_option autoImplicit false

/-- An object under `suppression/events/`. -/
structure S3Object where
  event : Event
  lastModified : Int

abbrev Bucket := List S3Object

def Bucket.keys (b : Bucket) : List Text := b.map fun o => o.event.key

def Bucket.getObject (b : Bucket) (k : Text) : Option Event :=
  (b.find? fun o => decide (o.event.key = k)).map S3Object.event

/-- The locals of `is_suppressed` inside `_load_events`: the keys left of the page,
and whether the listing goes on after the token. -/
structure Load where
  now : Int
  phone : Option Text
  email : Option Text
  token : Option Text := none
  page : List Text := []
  truncated : Bool := true
  events : List Event := []

/-- Where a store stands in the call it is executing. -/
inductive Activity where
  | idle
  /-- `add_suppression` before its put -/
  | putting (event : Event)
  /-- the put is done, the cache is not yet updated -/
  | landed (event : Event)
  | loading (load : Load)
  /-- `is_suppressed` past `_refresh_if_stale` -/
  | answering (now : Int) (phone email : Option Text)

/-- A store with the call it is executing. -/
structure Client extends SuppressionStore where
  activity : Activity

def Client.init : Client := ⟨SuppressionStore.init, .idle⟩

/-- The next page of at most `n` keys. -/
def Load.turn (l : Load) (bucket : Bucket) (n : Nat) : Load :=
  { l with
    token := nextToken l.token n bucket.keys
    page := pageAfter l.token n bucket.keys
    truncated := isTruncated l.token n bucket.keys }

/-- What one store does by itself. -/
inductive Op where
  | addBegin (identifier reason source : Text) (occurredAt : DateTime) (eventId : Text)
  | addEnd
  | addFail
  | checkBegin (phone email : Option Text)
  | listPage (n : Nat)
  | getObject
  | loadEnd
  | loadFail
  | answer

section Step

variable {ν : Type} (U : UnicodeData) (P : PhoneNumbers ν)

def Client.step (bucket : Bucket) (now : Int) (s : Client) :
    Op → Option Client
  | .addBegin identifier reason source occurredAt eventId =>
      match s.activity with
      | .idle =>
          match newEvent U P identifier reason source occurredAt eventId with
          | .error _ => some s
          | .ok e => some { s with activity := .putting e }
      | _ => none
  | .addEnd =>
      match s.activity with
      | .landed e => some { s with cache := s.cache.note (toMatch e), activity := .idle }
      | _ => none
  | .addFail =>
      -- the put raised; it may have landed all the same
      match s.activity with
      | .putting _ => some { s with activity := .idle }
      | .landed _ => some { s with activity := .idle }
      | _ => none
  | .checkBegin phone email =>
      match s.activity with
      | .idle =>
          if phone = none ∧ email = none then some s
          else if isStale s.cacheLoadedAt now then
            some { s with activity := .loading { now, phone, email } }
          else some { s with activity := .answering now phone email }
      | _ => none
  | .listPage n =>
      match s.activity with
      | .loading l =>
          if l.page = [] ∧ l.truncated = true then
            some { s with activity := .loading (l.turn bucket n) }
          else none
      | _ => none
  | .getObject =>
      match s.activity with
      | .loading l =>
          match l.page with
          | k :: page =>
              (bucket.getObject k).map fun e =>
                { s with activity := .loading { l with page, events := l.events ++ [e] } }
          | [] => none
      | _ => none
  | .loadEnd =>
      match s.activity with
      | .loading l =>
          if l.page = [] ∧ l.truncated = false then
            some ⟨⟨currentSet l.events, some l.now⟩, .answering l.now l.phone l.email⟩
          else none
      | _ => none
  | .loadFail =>
      match s.activity with
      | .loading _ => some { s with activity := .idle }
      | _ => none
  | .answer =>
      match s.activity with
      | .answering .. => some { s with activity := .idle }
      | _ => none

/-- The store is returning `r` from the check of `phone` and `email` begun at `now`. -/
def Client.Returns (s : Client) (now : Int) (phone email : Option Text)
    (r : SuppressionResult) : Prop :=
  s.activity = .answering now phone email ∧ r = report U P s.cache phone email

structure World (ι : Type) where
  bucket : Bucket
  now : Int
  stores : ι → Client

inductive Label (ι : Type) where
  | tick (d : Nat)
  | land (i : ι)
  | act (i : ι) (op : Op)

variable {ι : Type} [DecidableEq ι]

def World.step (w : World ι) : Label ι → Option (World ι)
  | .tick d => some { w with now := w.now + d }
  | .land i =>
      match (w.stores i).activity with
      | .putting e =>
          -- a `uuid4` is taken to be new
          if w.bucket.keys.contains e.key then none
          else some ⟨w.bucket ++ [⟨e, w.now⟩], w.now,
            Function.update w.stores i { w.stores i with activity := .landed e }⟩
      | _ => none
  | .act i op =>
      ((w.stores i).step U P w.bucket w.now op).map fun s =>
        { w with stores := Function.update w.stores i s }

/-- The system of all stores over the bucket. -/
def stores : Machine (World ι) (Label ι) := ⟨World.step U P⟩

/-- New stores over any log. -/
structure World.Initial (w : World ι) : Prop where
  keys_nodup : w.bucket.keys.Nodup
  past : ∀ o ∈ w.bucket, o.lastModified ≤ w.now
  stores : ∀ i, w.stores i = Client.init

end Step

/-! ## The invariant -/

/-- The load has read the object, or will. -/
def Load.Covers (l : Load) (o : S3Object) : Prop :=
  o.event ∈ l.events ∨ o.event.key ∈ l.page ∨
    (l.truncated = true ∧ after l.token o.event.key = true)

/-- A load reads logged events, covers all that landed before it began, and every
identifier that the cache had by then. -/
structure Load.Inv (l : Load) (bucket : Bucket) (clock : Int) (cache : Cache) : Prop where
  begun : l.now ≤ clock
  read : ∀ e ∈ l.events, ∃ o ∈ bucket, o.event = e
  older : ∀ o ∈ bucket, o.lastModified < l.now → l.Covers o
  cached : ∀ k ∈ cache.keys, ∃ o ∈ bucket, o.event.identifier = k ∧ l.Covers o

def Activity.Inv (bucket : Bucket) (clock : Int) (cache : Cache) (loadedAt : Option Int) :
    Activity → Prop
  | .idle => True
  | .putting _ => True
  | .landed e => ∃ o ∈ bucket, o.event = e
  | .loading l => l.Inv bucket clock cache
  | .answering now _ _ => isStale loadedAt now = false

/-- A cache names logged identifiers only, and all that landed before it was loaded. -/
structure Client.Inv (bucket : Bucket) (clock : Int) (s : Client) : Prop where
  known : ∀ k ∈ s.cache.keys, ∃ o ∈ bucket, o.event.identifier = k
  loaded : ∀ t, s.cacheLoadedAt = some t →
    t ≤ clock ∧ ∀ o ∈ bucket, o.lastModified < t → o.event.identifier ∈ s.cache.keys
  activity : s.activity.Inv bucket clock s.cache s.cacheLoadedAt

structure World.Inv {ι : Type} (w : World ι) : Prop where
  keys_nodup : w.bucket.keys.Nodup
  past : ∀ o ∈ w.bucket, o.lastModified ≤ w.now
  stores : ∀ i, (w.stores i).Inv w.bucket w.now

theorem getObject_mem {b : Bucket} {k : Text} {e : Event} (h : b.getObject k = some e) :
    ∃ o ∈ b, o.event = e ∧ o.event.key = k := by
  obtain ⟨o, ho, rfl⟩ := Option.map_eq_some_iff.mp h
  have hk := List.find?_some ho
  exact ⟨o, List.mem_of_find?_eq_some ho, rfl, of_decide_eq_true hk⟩

/-- Keys are unique, so a key that is read gives the object it stands for. -/
theorem getObject_eq {b : Bucket} (hn : b.keys.Nodup) {o : S3Object} (ho : o ∈ b) {e : Event}
    (h : b.getObject o.event.key = some e) : o.event = e := by
  obtain ⟨o', ho', rfl, hk⟩ := getObject_mem h
  exact congrArg S3Object.event (List.inj_on_of_nodup_map hn ho ho' hk.symm)

theorem Bucket.mem_keys {b : Bucket} {o : S3Object} (ho : o ∈ b) : o.event.key ∈ b.keys :=
  List.mem_map_of_mem ho

section Load

variable {l : Load} {b : Bucket} {c : Int} {cache : Cache}

theorem Load.Inv.begin (hc : ∀ k ∈ cache.keys, ∃ o ∈ b, o.event.identifier = k)
    (phone email : Option Text) :
    Load.Inv { now := c, phone, email } b c cache where
  begun := le_refl c
  read _ h := nomatch h
  older _ _ _ := Or.inr (Or.inr ⟨rfl, rfl⟩)
  cached k hk := by
    obtain ⟨o, ho, hid⟩ := hc k hk
    exact ⟨o, ho, hid, Or.inr (Or.inr ⟨rfl, rfl⟩)⟩

/-- Turning the page loses no object: what is not on it comes after its last key. -/
theorem Load.Covers.turn (hn : b.keys.Nodup) (hp : l.page = []) (n : Nat) {o : S3Object}
    (ho : o ∈ b) (h : l.Covers o) : (l.turn b n).Covers o := by
  rcases h with hread | hpage | ⟨-, hafter⟩
  · exact Or.inl hread
  · rw [hp] at hpage
    exact nomatch hpage
  · exact Or.inr (mem_page_or_after hn (Bucket.mem_keys ho) hafter)

theorem Load.Inv.turn (h : l.Inv b c cache) (hn : b.keys.Nodup) (hp : l.page = []) (n : Nat) :
    (l.turn b n).Inv b c cache where
  begun := h.begun
  read := h.read
  older o ho hlt := (h.older o ho hlt).turn hn hp n ho
  cached k hk := by
    obtain ⟨o, ho, hid, hcov⟩ := h.cached k hk
    exact ⟨o, ho, hid, hcov.turn hn hp n ho⟩

theorem Load.Covers.read (hn : b.keys.Nodup) {k : Text} {page : List Text} {e : Event}
    (hp : l.page = k :: page) (he : b.getObject k = some e) {o : S3Object} (ho : o ∈ b)
    (h : l.Covers o) : Load.Covers { l with page, events := l.events ++ [e] } o := by
  rcases h with hread | hpage | hafter
  · exact Or.inl (List.mem_append_left _ hread)
  · rw [hp] at hpage
    rcases List.mem_cons.mp hpage with rfl | hrest
    · have heq := getObject_eq hn ho he
      exact Or.inl (List.mem_append_right _ (List.mem_singleton.mpr heq))
    · exact Or.inr (Or.inl hrest)
  · exact Or.inr (Or.inr hafter)

theorem Load.Inv.read_next (h : l.Inv b c cache) (hn : b.keys.Nodup) {k : Text}
    {page : List Text} {e : Event} (hp : l.page = k :: page) (he : b.getObject k = some e) :
    Load.Inv { l with page, events := l.events ++ [e] } b c cache where
  begun := h.begun
  read x hx := by
    rcases List.mem_append.mp hx with hold | hnew
    · exact h.read x hold
    · obtain ⟨o, ho, hoe, -⟩ := getObject_mem he
      exact ⟨o, ho, hoe.trans (List.mem_singleton.mp hnew).symm⟩
  older o ho hlt := (h.older o ho hlt).read hn hp he ho
  cached k' hk' := by
    obtain ⟨o, ho, hid, hcov⟩ := h.cached k' hk'
    exact ⟨o, ho, hid, hcov.read hn hp he ho⟩

/-- When the listing is over, what the load covers is in the new cache. -/
theorem Load.Covers.identifier_mem (hp : l.page = []) (ht : l.truncated = false) {o : S3Object}
    (h : l.Covers o) : o.event.identifier ∈ (currentSet l.events).keys := by
  rcases h with hread | hpage | ⟨htrue, -⟩
  · exact mem_keys_currentSet.mpr ⟨o.event, hread, rfl⟩
  · rw [hp] at hpage
    exact nomatch hpage
  · rw [ht] at htrue
    exact nomatch htrue

theorem Load.Inv.keys_subset (h : l.Inv b c cache) (hp : l.page = []) (ht : l.truncated = false) :
    ∀ k ∈ cache.keys, k ∈ (currentSet l.events).keys := by
  intro k hk
  obtain ⟨o, -, rfl, hcov⟩ := h.cached k hk
  exact hcov.identifier_mem hp ht

/-- A put by anyone lands too late for a load that is under way to owe it. -/
theorem Load.Inv.land (h : l.Inv b c cache) (e : Event) :
    l.Inv (b ++ [⟨e, c⟩]) c cache where
  begun := h.begun
  read x hx := by
    obtain ⟨o, ho, he⟩ := h.read x hx
    exact ⟨o, List.mem_append_left _ ho, he⟩
  older o ho hlt := by
    rcases List.mem_append.mp ho with hold | hnew
    · exact h.older o hold hlt
    · rw [List.mem_singleton.mp hnew] at hlt
      have hbegun := h.begun
      simp only at hlt
      omega
  cached k hk := by
    obtain ⟨o, ho, hid, hcov⟩ := h.cached k hk
    exact ⟨o, List.mem_append_left _ ho, hid, hcov⟩

end Load

section Preservation

variable {ν : Type} {U : UnicodeData} {P : PhoneNumbers ν} {b : Bucket} {c d : Int}
  {s t : Client}

theorem Client.Inv.later (h : s.Inv b c) (hcd : c ≤ d) : s.Inv b d where
  known := h.known
  loaded t ht := ⟨(h.loaded t ht).1.trans hcd, (h.loaded t ht).2⟩
  activity := by
    have ha := h.activity
    cases hact : s.activity with
    | loading l =>
      rw [hact] at ha
      exact ⟨ha.begun.trans hcd, ha.read, ha.older, ha.cached⟩
    | _ =>
      rw [hact] at ha
      exact ha

theorem Client.Inv.land (h : s.Inv b c) (e : Event) : s.Inv (b ++ [⟨e, c⟩]) c where
  known k hk := by
    obtain ⟨o, ho, hid⟩ := h.known k hk
    exact ⟨o, List.mem_append_left _ ho, hid⟩
  loaded t ht := by
    refine ⟨(h.loaded t ht).1, fun o ho hlt => ?_⟩
    rcases List.mem_append.mp ho with hold | hnew
    · exact (h.loaded t ht).2 o hold hlt
    · rw [List.mem_singleton.mp hnew] at hlt
      have hle := (h.loaded t ht).1
      simp only at hlt
      omega
  activity := by
    have ha := h.activity
    cases hact : s.activity with
    | landed e' =>
      rw [hact] at ha
      obtain ⟨o, ho, he⟩ := ha
      exact ⟨o, List.mem_append_left _ ho, he⟩
    | loading l =>
      rw [hact] at ha
      exact ha.land e
    | _ =>
      rw [hact] at ha
      exact ha

/-- What one step of a store can do. -/
inductive Moved (b : Bucket) (c : Int) (s : Client) : Op → Client → Prop where
  | stays (op : Op) : Moved b c s op s
  | rests (op : Op) : Moved b c s op { s with activity := .idle }
  | puts (op : Op) (e : Event) : Moved b c s op { s with activity := .putting e }
  | notes (e : Event) (hact : s.activity = .landed e) :
      Moved b c s .addEnd { s with cache := s.cache.note (toMatch e), activity := .idle }
  | loads (phone email : Option Text) :
      Moved b c s (.checkBegin phone email)
        { s with activity := .loading { now := c, phone, email } }
  | answers (phone email : Option Text) (hfresh : isStale s.cacheLoadedAt c = false) :
      Moved b c s (.checkBegin phone email) { s with activity := .answering c phone email }
  | lists (l : Load) (n : Nat) (hact : s.activity = .loading l) (hp : l.page = []) :
      Moved b c s (.listPage n) { s with activity := .loading (l.turn b n) }
  | reads (l : Load) (k : Text) (page : List Text) (e : Event) (hact : s.activity = .loading l)
      (hp : l.page = k :: page) (he : b.getObject k = some e) :
      Moved b c s .getObject
        { s with activity := .loading { l with page, events := l.events ++ [e] } }
  | ends (l : Load) (hact : s.activity = .loading l) (hp : l.page = [])
      (ht : l.truncated = false) :
      Moved b c s .loadEnd
        ⟨⟨currentSet l.events, some l.now⟩, .answering l.now l.phone l.email⟩

theorem step_moved {op : Op} (h : s.step U P b c op = some t) : Moved b c s op t := by
  cases op with
  | addBegin identifier reason source occurredAt eventId =>
    simp only [Client.step] at h
    split at h
    · split at h
      · cases h
        exact .stays _
      · cases h
        exact .puts _ _
    · cases h
  | addEnd =>
    simp only [Client.step] at h
    split at h
    · rename_i e he
      cases h
      exact .notes e he
    · cases h
  | addFail =>
    simp only [Client.step] at h
    split at h <;> cases h <;> exact .rests _
  | checkBegin phone email =>
    simp only [Client.step] at h
    split at h
    · split at h
      · cases h
        exact .stays _
      · split at h
        · cases h
          exact .loads phone email
        · rename_i hfresh
          cases h
          exact .answers phone email (Bool.eq_false_iff.mpr hfresh)
    · cases h
  | listPage n =>
    simp only [Client.step] at h
    split at h
    · rename_i l hact
      split at h
      · rename_i hp
        cases h
        exact .lists l n hact hp.1
      · cases h
    · cases h
  | getObject =>
    simp only [Client.step] at h
    split at h
    · rename_i l hact
      split at h
      · rename_i k page hp
        obtain ⟨e, he, rfl⟩ := Option.map_eq_some_iff.mp h
        exact .reads l k page e hact hp he
      · cases h
    · cases h
  | loadEnd =>
    simp only [Client.step] at h
    split at h
    · rename_i l hact
      split at h
      · rename_i hp
        cases h
        exact .ends l hact hp.1 hp.2
      · cases h
    · cases h
  | loadFail =>
    simp only [Client.step] at h
    split at h <;> cases h
    exact .rests _
  | answer =>
    simp only [Client.step] at h
    split at h <;> cases h
    exact .rests _

theorem Moved.inv {op : Op} (hn : b.keys.Nodup) (h : s.Inv b c) (hm : Moved b c s op t) : t.Inv b c := by
  have hknown := h.known
  have hloaded := h.loaded
  have ha := h.activity
  cases hm with
  | stays => exact h
  | rests => exact ⟨hknown, hloaded, trivial⟩
  | puts _ e => exact ⟨hknown, hloaded, trivial⟩
  | notes e hact =>
    rw [hact] at ha
    obtain ⟨o, ho, he⟩ := ha
    refine ⟨fun k hk => ?_, fun t ht => ⟨(hloaded t ht).1, fun o' ho' hlt => ?_⟩, trivial⟩
    · rcases (Cache.mem_keys_note _ _ k).mp hk with rfl | hk
      · exact ⟨o, ho, congrArg Event.identifier he⟩
      · exact hknown k hk
    · exact (Cache.mem_keys_note _ _ _).mpr (Or.inr ((hloaded t ht).2 o' ho' hlt))
  | loads phone email => exact ⟨hknown, hloaded, Load.Inv.begin hknown phone email⟩
  | answers phone email hfresh => exact ⟨hknown, hloaded, hfresh⟩
  | lists l n hact hp =>
    rw [hact] at ha
    exact ⟨hknown, hloaded, Load.Inv.turn ha hn hp n⟩
  | reads l k page e hact hp he =>
    rw [hact] at ha
    exact ⟨hknown, hloaded, Load.Inv.read_next ha hn hp he⟩
  | ends l hact hp ht =>
    rw [hact] at ha
    have hl : l.Inv b c s.cache := ha
    refine ⟨fun k hk => ?_, fun t' ht' => ?_, ?_⟩
    · obtain ⟨e, he, rfl⟩ := mem_keys_currentSet.mp hk
      obtain ⟨o, ho, rfl⟩ := hl.read e he
      exact ⟨o, ho, rfl⟩
    · rw [← Option.some.inj ht']
      exact ⟨hl.begun, fun o ho hlt => (hl.older o ho hlt).identifier_mem hp ht⟩
    · -- the load began at the time the cache is stamped with
      refine isStale_eq_false.mpr ⟨l.now, rfl, ?_⟩
      rw [Int.sub_self]
      decide

/-- A store never forgets an identifier: neither its own events nor a reload drop one. -/
theorem Moved.keys_subset {op : Op} (h : s.Inv b c) (hm : Moved b c s op t) :
    ∀ k ∈ s.cache.keys, k ∈ t.cache.keys := by
  intro k hk
  cases hm with
  | notes e hact => exact (Cache.mem_keys_note _ _ k).mpr (Or.inr hk)
  | ends l hact hp ht =>
    have ha := h.activity
    rw [hact] at ha
    exact Load.Inv.keys_subset ha hp ht k hk
  | _ => exact hk

/-- Not inside `is_suppressed`. -/
def Activity.Outside : Activity → Prop
  | .loading _ => False
  | .answering .. => False
  | _ => True

/-- Only `checkBegin` takes a store into a check. -/
theorem Moved.outside {op : Op} (hop : ∀ phone email, op ≠ .checkBegin phone email)
    (hm : Moved b c s op t) (h : s.activity.Outside) : t.activity.Outside := by
  cases hm with
  | stays => exact h
  | rests => trivial
  | puts => trivial
  | notes => trivial
  | loads phone email => exact absurd rfl (hop phone email)
  | answers phone email => exact absurd rfl (hop phone email)
  | lists l n hact =>
    rw [hact] at h
    exact h.elim
  | reads l k page e hact =>
    rw [hact] at h
    exact h.elim
  | ends l hact =>
    rw [hact] at h
    exact h.elim

end Preservation

/-! ## Runs -/

section Runs

variable {ν ι : Type} [DecidableEq ι] {U : UnicodeData} {P : PhoneNumbers ν} {w w' : World ι}

omit [DecidableEq ι] in
theorem World.Initial.inv (h : w.Initial) : w.Inv where
  keys_nodup := h.keys_nodup
  past := h.past
  stores i := by
    rw [h.stores i]
    exact ⟨fun k hk => absurd hk (Cache.mem_keys_empty k), fun t ht => (nomatch ht), trivial⟩

/-- A step of the system is a tick, a put that lands, or a step of one store. -/
theorem world_step_inv {l : Label ι} (h : w.Inv) (hs : (stores U P).step w l = some w') :
    w'.Inv := by
  cases l with
  | tick d =>
    cases hs
    refine ⟨h.keys_nodup, fun o ho => ?_, fun i => (h.stores i).later ?_⟩
    · have hle := h.past o ho
      show o.lastModified ≤ w.now + d
      omega
    · show w.now ≤ w.now + d
      omega
  | land i =>
    simp only [stores, World.step] at hs
    split at hs
    · rename_i e hact
      split at hs
      · cases hs
      · rename_i hheld
        have hnew : e.key ∉ w.bucket.keys := fun h => hheld (List.contains_iff_mem.mpr h)
        cases hs
        refine ⟨?_, fun o ho => ?_, fun j => ?_⟩
        · show (Bucket.keys (w.bucket ++ [(⟨e, w.now⟩ : S3Object)])).Nodup
          rw [Bucket.keys, List.map_append]
          exact h.keys_nodup.append (List.nodup_singleton _) (List.disjoint_singleton.mpr hnew)
        · rcases List.mem_append.mp ho with hold | hlast
          · exact h.past o hold
          · rw [List.mem_singleton.mp hlast]
        · have hj := (h.stores j).land e
          by_cases hij : j = i
          · subst hij
            simp only [Function.update_self]
            have hin : (⟨e, w.now⟩ : S3Object) ∈ w.bucket ++ [⟨e, w.now⟩] :=
              List.mem_append_right _ (List.mem_singleton_self _)
            exact ⟨hj.known, hj.loaded, ⟨_, hin, rfl⟩⟩
          · simp only [Function.update_of_ne hij]
            exact hj
    · cases hs
  | act i op =>
    obtain ⟨s, hstep, rfl⟩ := Option.map_eq_some_iff.mp hs
    refine ⟨h.keys_nodup, h.past, fun j => ?_⟩
    by_cases hij : j = i
    · subst hij
      simp only [Function.update_self]
      exact (step_moved hstep).inv h.keys_nodup (h.stores j)
    · simp only [Function.update_of_ne hij]
      exact h.stores j

theorem world_step_keys {l : Label ι} (h : w.Inv) (hs : (stores U P).step w l = some w') (i : ι)
    {k : Text} (hk : k ∈ (w.stores i).cache.keys) : k ∈ (w'.stores i).cache.keys := by
  cases l with
  | tick d =>
    cases hs
    exact hk
  | land j =>
    simp only [stores, World.step] at hs
    split at hs
    · split at hs
      · cases hs
      · cases hs
        by_cases hij : i = j
        · subst hij
          simpa only [Function.update_self] using hk
        · simpa only [Function.update_of_ne hij] using hk
    · cases hs
  | act j op =>
    obtain ⟨s, hstep, rfl⟩ := Option.map_eq_some_iff.mp hs
    by_cases hij : i = j
    · subst hij
      simp only [Function.update_self]
      exact (step_moved hstep).keys_subset (h.stores i) k hk
    · simpa only [Function.update_of_ne hij] using hk

theorem run_inv {es : List (Label ι)} (h : w.Inv) (hr : (stores U P).run w es = some w') :
    w'.Inv :=
  (stores U P).run_preserves (fun _ _ _ hp hs => world_step_inv hp hs) h hr

theorem run_keys {es : List (Label ι)} (h : w.Inv) (hr : (stores U P).run w es = some w') (i : ι)
    {k : Text} (hk : k ∈ (w.stores i).cache.keys) : k ∈ (w'.stores i).cache.keys := by
  have hstep : ∀ (u : World ι) l v, u.Inv ∧ k ∈ (u.stores i).cache.keys →
      (stores U P).step u l = some v → v.Inv ∧ k ∈ (v.stores i).cache.keys :=
    fun u l v hu hs => ⟨world_step_inv hu.1 hs, world_step_keys hu.1 hs i hu.2⟩
  exact ((stores U P).run_preserves hstep ⟨h, hk⟩ hr).2

theorem world_step_outside {l : Label ι} {i : ι}
    (hl : ∀ phone email, l ≠ .act i (.checkBegin phone email))
    (hs : (stores U P).step w l = some w') (h : (w.stores i).activity.Outside) :
    (w'.stores i).activity.Outside := by
  cases l with
  | tick d =>
    cases hs
    exact h
  | land j =>
    simp only [stores, World.step] at hs
    split at hs
    · split at hs
      · cases hs
      · cases hs
        by_cases hij : i = j
        · subst hij
          simp only [Function.update_self]
          trivial
        · simpa only [Function.update_of_ne hij] using h
    · cases hs
  | act j op =>
    obtain ⟨s, hstep, rfl⟩ := Option.map_eq_some_iff.mp hs
    by_cases hij : i = j
    · subst hij
      simp only [Function.update_self]
      refine (step_moved hstep).outside (fun phone email hop => ?_) h
      exact hl phone email (congrArg (Label.act i) hop)
    · simpa only [Function.update_of_ne hij] using h

theorem run_outside {es : List (Label ι)} {i : ι}
    (hes : ∀ l ∈ es, ∀ phone email, l ≠ .act i (.checkBegin phone email))
    (hr : (stores U P).run w es = some w') (h : (w.stores i).activity.Outside) :
    (w'.stores i).activity.Outside := by
  have hstep : ∀ (u : World ι) (l : Label ι) (v : World ι), (u.stores i).activity.Outside →
      (∀ phone email, l ≠ .act i (.checkBegin phone email)) → (stores U P).step u l = some v →
        (v.stores i).activity.Outside :=
    fun u l v hu hl hs => world_step_outside hl hs hu
  exact (stores U P).run_preserves_along hstep h
    ((stores U P).along_of_forall fun _ l hl => hes l hl) hr

theorem Client.Returns.fresh {s : Client} {b : Bucket} {c now : Int} {phone email : Option Text}
    {r : SuppressionResult} (hret : s.Returns U P now phone email r) (h : s.Inv b c) :
    ∃ t, s.cacheLoadedAt = some t ∧ now - t < refreshTtl := by
  have ha := h.activity
  rw [hret.1] at ha
  exact isStale_eq_false.mp ha

/-- The check is given an identifier whose normal form is `k`. -/
def Asks (U : UnicodeData) (P : PhoneNumbers ν) (phone email : Option Text) (k : Text) : Prop :=
  ∃ q ∈ provided U P phone email, q.2 = some k

theorem Client.Returns.reports {s : Client} {now : Int} {phone email : Option Text}
    {r : SuppressionResult} (hret : s.Returns U P now phone email r) {k : Text} :
    r.Reports k ↔ k ∈ s.cache.keys ∧ Asks U P phone email k := by
  rw [hret.2]
  exact report_reports

/-- An object a TTL old when the check began was there before the load that it answers from. -/
theorem Client.Returns.logged_cached {s : Client} {b : Bucket} {c now : Int} {phone email : Option Text}
    {r : SuppressionResult} (hret : s.Returns U P now phone email r) (h : s.Inv b c) {o : S3Object}
    (ho : o ∈ b) (hold : o.lastModified + refreshTtl ≤ now) :
    o.event.identifier ∈ s.cache.keys := by
  obtain ⟨t, ht, hage⟩ := hret.fresh h
  have hlate : o.lastModified < t := by omega
  exact (h.loaded t ht).2 o ho hlate

theorem addEnd_noted {i : ι} {e : Event} (hact : (w.stores i).activity = .landed e)
    (hs : (stores U P).step w (.act i .addEnd) = some w') :
    e.identifier ∈ (w'.stores i).cache.keys := by
  obtain ⟨s, hstep, rfl⟩ := Option.map_eq_some_iff.mp hs
  simp only [Client.step, hact, Option.some.injEq] at hstep
  simp only [Function.update_self, ← hstep]
  exact (Cache.mem_keys_note _ _ _).mpr (Or.inl rfl)

theorem loadFail_outside {i : ι} (hs : (stores U P).step w (.act i .loadFail) = some w') :
    (w'.stores i).activity.Outside := by
  obtain ⟨s, hstep, rfl⟩ := Option.map_eq_some_iff.mp hs
  simp only [Client.step] at hstep
  split at hstep
  · cases hstep
    simp only [Function.update_self]
    trivial
  · cases hstep

/-- What store `i` guarantees from the state `w` on. -/
structure Guarantees (U : UnicodeData) (P : PhoneNumbers ν) (w : World ι) (i : ι) : Prop where
  /-- a check begun a TTL after the event landed reports it -/
  fresh : ∀ now phone email r, (w.stores i).Returns U P now phone email r →
    ∀ o ∈ w.bucket, o.lastModified + refreshTtl ≤ now → Asks U P phone email o.event.identifier →
      r.Reports o.event.identifier
  /-- the next check after the writer's own add reports it, and so does every later one -/
  ownAdd : ∀ e, (w.stores i).activity = .landed e →
    ∀ es w', (stores U P).run w (.act i .addEnd :: es) = some w' →
      ∀ now phone email r, (w'.stores i).Returns U P now phone email r →
        Asks U P phone email e.identifier → r.Reports e.identifier
  /-- what was reported suppressed stays so -/
  monotone : ∀ now phone email r, (w.stores i).Returns U P now phone email r →
    ∀ es w', (stores U P).run w es = some w' →
      ∀ now' phone' email' r', (w'.stores i).Returns U P now' phone' email' r' →
        (∀ k, r.Reports k → Asks U P phone' email' k → r'.Reports k) ∧
          (phone' = phone → email' = email → r.suppressed = true → r'.suppressed = true)
  /-- no answer comes from a cache that was a TTL old when the check began -/
  bounded : ∀ now phone email r, (w.stores i).Returns U P now phone email r →
    ∃ t, (w.stores i).cacheLoadedAt = some t ∧ now - t < refreshTtl
  /-- a reload that fails ends the check without an answer -/
  failed : ∀ es w', (∀ l ∈ es, ∀ phone email, l ≠ .act i (.checkBegin phone email)) →
    (stores U P).run w (.act i .loadFail :: es) = some w' →
      ∀ now phone email r, ¬ (w'.stores i).Returns U P now phone email r

/-- Freshness and monotonicity hold in every reachable state of every interleaving. -/
theorem suppression_fresh {w₀ : World ι} (h₀ : w₀.Initial) {es : List (Label ι)}
    (hr : (stores U P).run w₀ es = some w) (i : ι) : Guarantees U P w i := by
  have hinv : w.Inv := run_inv h₀.inv hr
  refine ⟨?_, ?_, ?_, ?_, ?_⟩
  · intro now phone email r hret o ho hold hask
    exact hret.reports.mpr ⟨hret.logged_cached (hinv.stores i) ho hold, hask⟩
  · intro e hact fs w' hrun now phone email r hret hask
    obtain ⟨u, hu, hrest⟩ := (stores U P).run_cons_some.mp hrun
    have huinv : u.Inv := world_step_inv hinv hu
    have hnoted : e.identifier ∈ (u.stores i).cache.keys := addEnd_noted hact hu
    exact hret.reports.mpr ⟨run_keys huinv hrest i hnoted, hask⟩
  · intro now phone email r hret fs w' hrun now' phone' email' r' hret'
    have hkeys : ∀ k ∈ (w.stores i).cache.keys, k ∈ (w'.stores i).cache.keys :=
      fun k hk => run_keys hinv hrun i hk
    constructor
    · intro k hk hask
      exact hret'.reports.mpr ⟨hkeys k (hret.reports.mp hk).1, hask⟩
    · rintro rfl rfl hsup
      rw [hret.2] at hsup
      rw [hret'.2]
      exact report_suppressed_mono hkeys hsup
  · intro now phone email r hret
    exact hret.fresh (hinv.stores i)
  · intro fs w' hfs hrun now phone email r hret
    obtain ⟨u, hu, hrest⟩ := (stores U P).run_cons_some.mp hrun
    have hout := run_outside hfs hrest (loadFail_outside hu)
    rw [hret.1] at hout
    exact hout

end Runs

/-- A put by the first store, and a check by the second that loads it. -/
def putAndCheck : List (Label Bool) :=
  [.act true (.addBegin "+16502530000".toList "STOP reply".toList "sms".toList ⟨0, some 0⟩
      "1f".toList),
    .land true, .act true .addEnd, .tick 30000000,
    .act false (.checkBegin (some "+16502530000".toList) none), .act false (.listPage 1000),
    .act false .getObject, .act false .loadEnd]

theorem suppression_fresh_putAndCheck :
    ∃ w, (stores .plain .e164).run ⟨[], 0, fun _ => .init⟩ putAndCheck = some w ∧
      Guarantees .plain .e164 w false := by
  have hruns : ((stores .plain .e164).run ⟨[], 0, fun _ => .init⟩ putAndCheck).isSome = true := by
    decide +kernel
  obtain ⟨w, hw⟩ := Option.isSome_iff_exists.mp hruns
  have h₀ : World.Initial (⟨[], 0, fun _ => .init⟩ : World Bool) := by
    refine ⟨?_, fun o ho => absurd ho List.not_mem_nil, fun _ => rfl⟩
    show ([] : List Text).Nodup
    exact List.nodup_nil
  exact ⟨w, hw, suppression_fresh h₀ hw false⟩

end Outreach.Suppression
