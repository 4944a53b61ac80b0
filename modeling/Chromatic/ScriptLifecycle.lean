import Chromatic.NativeFunction
import Chromatic.Foundation.IndexedRegistry
import Chromatic.Foundation.Runs

/-!
# Dispose callbacks

`ScriptLifecycle`: callbacks that a script registers for the time before it is reloaded.
`_callDisposeCallbacks` calls a snapshot of them without the lock and then clears the map, so
what they do to the map meanwhile has no effect on the calls and what they put there is lost.

§1 the interface · §2 calls and events · §3 what holds of the callbacks · §4 single calls ·
§5 a disposal · §6 runs.
-/

namespace Chromatic

open Foundation NativeFunction

namespace ScriptLifecycle

/-! ## §1  The interface -/

structure LifecycleState where
  nextId : ℕ
  callbacks : HashMap ℕ Callback

def LifecycleState.start : LifecycleState := ⟨1, ∅⟩

def onDispose (callback : Callback) (s : LifecycleState) : String × LifecycleState :=
  (toHexAddr s.nextId, ⟨s.nextId + 1, s.callbacks.insert s.nextId callback⟩)

def removeDisposeCallback (callbackId : String) (s : LifecycleState) :
    Except CallError Unit × LifecycleState :=
  match parseHexAddr callbackId with
  | .error e => (.error e, s)
  | .ok id => (.ok (), { s with callbacks := s.callbacks.erase id.toNat })

def removeAllDisposeCallbacks (s : LifecycleState) : LifecycleState :=
  { s with callbacks := ∅ }

/-- The loop over the snapshot. What a callback throws is printed. -/
def callAll {ι σ : Type*} (cb : ι → σ → Except String Unit × σ) : List ι → σ → σ
  | [], s => s
  | i :: rest, s =>
    match cb i s with
    | (.error _, s) => callAll cb rest s
    | (.ok _, s) => callAll cb rest s

theorem callAll_cons {ι σ : Type*} (cb : ι → σ → Except String Unit × σ) (i : ι)
    (rest : List ι) (s : σ) : callAll cb (i :: rest) s = callAll cb rest (cb i s).2 := by
  rcases hcall : cb i s with ⟨threw | returned, s'⟩ <;> simp [callAll, hcall]

/-- `_callDisposeCallbacks` in a process of which the registry is a part. `snapshot` are the
entries of the map, in the order of the iteration. -/
def _callDisposeCallbacks {ι σ : Type*} (cb : ι → σ → Except String Unit × σ)
    (clear : (LifecycleState → LifecycleState) → σ → σ) (snapshot : List ι) (s : σ) : σ :=
  clear removeAllDisposeCallbacks (callAll cb snapshot s)

/-! ## §2  Calls and events -/

/-- What a script does to the registry. -/
inductive Op where
  | onDispose (callback : Callback)
  | removeDisposeCallback (callbackId : String)
deriving DecidableEq, Repr

/-- The identifier that a removal names. -/
def Op.target : Op → Option ℕ
  | .onDispose _ => none
  | .removeDisposeCallback callbackId =>
    match parseHexAddr callbackId with
    | .error _ => none
    | .ok id => some id.toNat

inductive Event where
  | registered (id : ℕ)
  | removed (id : ℕ)
  | disposing (ids : List ℕ)
  | invoked (id : ℕ)
deriving DecidableEq, Repr

/-- The registry, and as history what has happened to its callbacks. -/
structure History where
  registry : LifecycleState
  events : List Event

def History.start : History := ⟨.start, []⟩

/-- A removal counts when its identifier has been given out. -/
def Op.event (op : Op) (s : LifecycleState) : List Event :=
  match op with
  | .onDispose _ => [.registered s.nextId]
  | .removeDisposeCallback _ =>
    match op.target with
    | none => []
    | some id => if id < s.nextId then [.removed id] else []

def Op.update (op : Op) (s : LifecycleState) : LifecycleState :=
  match op with
  | .onDispose callback => (ScriptLifecycle.onDispose callback s).2
  | .removeDisposeCallback callbackId =>
    (ScriptLifecycle.removeDisposeCallback callbackId s).2

def Op.exec (op : Op) (s : History) : History where
  registry := op.update s.registry
  events := s.events ++ op.event s.registry

def execAll (ops : List Op) (s : History) : History := ops.foldl (fun s op => op.exec s) s

/-- A callback called in a disposal, what it does to the registry and how it ends. -/
structure Visit where
  id : ℕ
  callback : Callback
  ops : List Op
  outcome : Except String Unit

def Visit.entry (v : Visit) : Σ _ : ℕ, Callback := ⟨v.id, v.callback⟩

def Visit.call (v : Visit) (s : History) : Except String Unit × History :=
  (v.outcome, execAll v.ops { s with events := s.events ++ [.invoked v.id] })

/-- Calls of the interface from outside a disposal, and disposals. -/
inductive Call where
  | edit (op : Op)
  | dispose (visits : List Visit)

def Call.exec : Call → History → History
  | .edit op, s => op.exec s
  | .dispose visits, s =>
    _callDisposeCallbacks Visit.call (fun f s => { s with registry := f s.registry }) visits
      { s with events := s.events ++ [.disposing (visits.map Visit.id)] }

/-- A disposal visits the entries of the map in any order. -/
inductive Step (s : History) (c : Call) : History → Prop
  | mk (order : ∀ visits, c = .dispose visits →
      (visits.map Visit.entry).Perm s.registry.callbacks.entries) : Step s c (c.exec s)

/-! ## §3  What holds of the callbacks -/

/-- No callback is invoked after it was removed or invoked. -/
def AtMostOnce (events : List Event) : Prop :=
  ∀ pre id post, events = pre ++ .invoked id :: post →
    Event.removed id ∉ pre ∧ Event.invoked id ∉ pre

/-- Callbacks run once: none after its removal, none twice, each that is not removed is
invoked or stays registered, and a disposal invokes all it found. -/
structure ExactlyOnce (s : History) : Prop where
  once : AtMostOnce s.events
  kept : ∀ id, .registered id ∈ s.events →
    .removed id ∈ s.events ∨ .invoked id ∈ s.events ∨ id ∈ s.registry.callbacks
  all : ∀ ids, .disposing ids ∈ s.events → ∀ id ∈ ids, .invoked id ∈ s.events

/-- The identifier that a registration behind `ops` is given. -/
def issued (n : ℕ) (ops : List Op) : ℕ :=
  n + ops.countP fun op => match op with
    | .onDispose _ => true
    | .removeDisposeCallback _ => false

/-- Every callback that `ops` register they also remove. -/
def Withdrawn (n : ℕ) (ops : List Op) : Prop :=
  ∀ pre callback post, ops = pre ++ .onDispose callback :: post →
    ∃ op ∈ post, op.target = some (issued n pre)

/-- In a disposal no callback removes one that is still to be called, and every callback
registered in it is removed in it. -/
def Orderly (s : History) : Call → Prop
  | .edit _ => True
  | .dispose visits =>
    visits.Pairwise (fun v w => ∀ op ∈ v.ops, op.target ≠ some w.id) ∧
      Withdrawn s.registry.nextId (visits.flatMap Visit.ops)

/-! ## §4  Operations -/

def updateAll (ops : List Op) (r : LifecycleState) : LifecycleState :=
  ops.foldl (fun r op => op.update r) r

/-- What `ops` add to the events. -/
def opEvents : List Op → LifecycleState → List Event
  | [], _ => []
  | op :: ops, r => op.event r ++ opEvents ops (op.update r)

section Operations

variable {op : Op} {ops : List Op} {r : LifecycleState} {id : ℕ} {e : Event}

theorem execAll_eq (ops : List Op) (s : History) :
    execAll ops s = ⟨updateAll ops s.registry, s.events ++ opEvents ops s.registry⟩ := by
  induction ops generalizing s with
  | nil => simp [execAll, updateAll, opEvents]
  | cons op ops ih =>
      have hstep : execAll (op :: ops) s = execAll ops (op.exec s) := rfl
      rw [hstep, ih]
      simp [Op.exec, updateAll, opEvents]

theorem opEvents_append (ops ops' : List Op) (r : LifecycleState) :
    opEvents (ops ++ ops') r = opEvents ops r ++ opEvents ops' (updateAll ops r) := by
  induction ops generalizing r with
  | nil => rfl
  | cons op ops ih => simp [opEvents, ih, updateAll]

theorem update_nextId (op : Op) (r : LifecycleState) :
    (op.update r).nextId = issued r.nextId [op] := by
  cases op with
  | onDispose callback => rfl
  | removeDisposeCallback callbackId =>
      simp only [Op.update, removeDisposeCallback, issued]
      split <;> rfl

theorem updateAll_nextId (ops : List Op) (r : LifecycleState) :
    (updateAll ops r).nextId = issued r.nextId ops := by
  induction ops generalizing r with
  | nil => rfl
  | cons op ops ih =>
      have hstep : updateAll (op :: ops) r = updateAll ops (op.update r) := rfl
      rw [hstep, ih, update_nextId]
      simp only [issued, List.countP_cons, List.countP_nil]
      omega

theorem registered_mem_event : .registered id ∈ op.event r ↔
    (∃ callback, op = .onDispose callback) ∧ id = r.nextId := by
  cases op with
  | onDispose callback => simp [Op.event]
  | removeDisposeCallback callbackId =>
      simp only [Op.event]
      split
      · simp
      · split <;> simp

theorem removed_mem_event : .removed id ∈ op.event r ↔
    op.target = some id ∧ id < r.nextId := by
  cases op with
  | onDispose callback => simp [Op.event, Op.target]
  | removeDisposeCallback callbackId =>
      simp only [Op.event]
      cases htarget : (Op.removeDisposeCallback callbackId).target with
      | none => simp
      | some id' =>
          simp only [Option.some.injEq]
          split
          · rename_i hlt
            rw [List.mem_singleton, Event.removed.injEq]
            constructor
            · rintro rfl
              exact ⟨rfl, hlt⟩
            · rintro ⟨rfl, -⟩
              rfl
          · rename_i hge
            constructor
            · intro h
              cases h
            · rintro ⟨rfl, hlt⟩
              exact absurd hlt hge

theorem mem_event_cases (h : e ∈ op.event r) :
    (∃ id, e = .registered id) ∨ ∃ id, e = .removed id := by
  cases op with
  | onDispose callback => exact .inl ⟨_, List.mem_singleton.mp h⟩
  | removeDisposeCallback callbackId =>
      simp only [Op.event] at h
      split at h
      · cases h
      · split at h
        · exact .inr ⟨_, List.mem_singleton.mp h⟩
        · cases h

/-- What is added comes from one of the operations, in the state the earlier ones left. -/
theorem mem_opEvents : e ∈ opEvents ops r ↔
    ∃ pre op post, ops = pre ++ op :: post ∧ e ∈ op.event (updateAll pre r) := by
  induction ops generalizing r with
  | nil => simp [opEvents]
  | cons op ops ih =>
      rw [opEvents, List.mem_append, ih]
      constructor
      · rintro (hhead | ⟨pre, op', post, rfl, htail⟩)
        · exact ⟨[], op, ops, rfl, hhead⟩
        · exact ⟨op :: pre, op', post, rfl, htail⟩
      · rintro ⟨pre, op', post, hsplit, hmem⟩
        cases pre with
        | nil =>
            obtain ⟨rfl, rfl⟩ := List.cons.inj hsplit
            exact .inl hmem
        | cons head pre =>
            obtain ⟨rfl, rfl⟩ := List.cons.inj hsplit
            exact .inr ⟨pre, op', post, rfl, hmem⟩

theorem registered_mem_opEvents : .registered id ∈ opEvents ops r ↔
    ∃ pre callback post, ops = pre ++ .onDispose callback :: post ∧
      id = issued r.nextId pre := by
  simp only [mem_opEvents, registered_mem_event, updateAll_nextId]
  constructor
  · rintro ⟨pre, -, post, rfl, ⟨callback, rfl⟩, rfl⟩
    exact ⟨pre, callback, post, rfl, rfl⟩
  · rintro ⟨pre, callback, post, rfl, rfl⟩
    exact ⟨pre, _, post, rfl, ⟨callback, rfl⟩, rfl⟩

theorem removed_mem_opEvents : .removed id ∈ opEvents ops r ↔
    ∃ pre op post, ops = pre ++ op :: post ∧ op.target = some id ∧
      id < issued r.nextId pre := by
  simp only [mem_opEvents, removed_mem_event, updateAll_nextId]

theorem issued_append (n : ℕ) (ops ops' : List Op) :
    issued n (ops ++ ops') = issued (issued n ops) ops' := by
  simp [issued, Nat.add_assoc]

theorem le_issued (n : ℕ) (ops : List Op) : n ≤ issued n ops := Nat.le_add_right _ _

/-- The removal of a callback registered before counts. -/
theorem removed_mem_opEvents_of_lt (hid : id < r.nextId) :
    .removed id ∈ opEvents ops r ↔ ∃ op ∈ ops, op.target = some id := by
  rw [removed_mem_opEvents]
  constructor
  · rintro ⟨pre, op, post, rfl, htarget, -⟩
    exact ⟨op, by simp, htarget⟩
  · rintro ⟨op, hop, htarget⟩
    obtain ⟨pre, post, rfl⟩ := List.append_of_mem hop
    exact ⟨pre, op, post, rfl, htarget, Nat.lt_of_lt_of_le hid (le_issued _ _)⟩

theorem invoked_not_mem_opEvents : .invoked id ∉ opEvents ops r := by
  intro h
  obtain ⟨pre, op, post, -, hmem⟩ := mem_opEvents.mp h
  rcases mem_event_cases hmem with ⟨id', h⟩ | ⟨id', h⟩ <;> cases h

theorem disposing_not_mem_opEvents {ids : List ℕ} : .disposing ids ∉ opEvents ops r := by
  intro h
  obtain ⟨pre, op, post, -, hmem⟩ := mem_opEvents.mp h
  rcases mem_event_cases hmem with ⟨id', h⟩ | ⟨id', h⟩ <;> cases h

theorem mem_update_callbacks : id ∈ (op.update r).callbacks ↔
    (∃ callback, op = .onDispose callback) ∧ id = r.nextId ∨
      op.target ≠ some id ∧ id ∈ r.callbacks := by
  cases op with
  | onDispose callback =>
      simp [Op.update, ScriptLifecycle.onDispose, Op.target, AList.mem_insert]
  | removeDisposeCallback callbackId =>
      simp only [Op.update, removeDisposeCallback, Op.target]
      cases parseHexAddr callbackId with
      | error e => simp
      | ok word => simp [AList.mem_erase, eq_comm]

end Operations

/-! ## §5  A disposal -/

/-- What a loop over `visits` adds to the events. -/
def visitEvents : List Visit → LifecycleState → List Event
  | [], _ => []
  | v :: rest, r => .invoked v.id :: opEvents v.ops r ++ visitEvents rest (updateAll v.ops r)

section Disposal

variable {visits : List Visit} {r : LifecycleState} {e : Event} {events : List Event}

theorem callAll_eq (visits : List Visit) (s : History) : callAll Visit.call visits s =
    ⟨updateAll (visits.flatMap Visit.ops) s.registry,
      s.events ++ visitEvents visits s.registry⟩ := by
  induction visits generalizing s with
  | nil => simp [callAll, updateAll, visitEvents]
  | cons v rest ih =>
      rw [callAll_cons, ih, Visit.call, execAll_eq]
      simp [visitEvents, updateAll]

theorem dispose_eq (visits : List Visit) (s : History) : (Call.dispose visits).exec s =
    ⟨removeAllDisposeCallbacks (updateAll (visits.flatMap Visit.ops) s.registry),
      s.events ++ .disposing (visits.map Visit.id) :: visitEvents visits s.registry⟩ := by
  simp [Call.exec, _callDisposeCallbacks, callAll_eq]

theorem mem_visitEvents : e ∈ visitEvents visits r ↔
    (∃ v ∈ visits, e = .invoked v.id) ∨ e ∈ opEvents (visits.flatMap Visit.ops) r := by
  induction visits generalizing r with
  | nil => simp [visitEvents, opEvents]
  | cons v rest ih =>
      rw [visitEvents, List.cons_append, List.mem_cons, List.mem_append, ih,
        List.flatMap_cons, opEvents_append, List.mem_append]
      simp only [List.exists_mem_cons_iff]
      rw [or_assoc, or_left_comm (b := ∃ w ∈ rest, e = .invoked w.id)]

theorem atMostOnce_nil : AtMostOnce [] := by
  intro pre id post h
  simp at h

theorem atMostOnce_snoc : AtMostOnce (events ++ [e]) ↔ AtMostOnce events ∧
    ∀ id, e = .invoked id → .removed id ∉ events ∧ .invoked id ∉ events := by
  constructor
  · intro h
    refine ⟨?_, ?_⟩
    · rintro pre id post rfl
      exact h pre id (post ++ [e]) (by simp)
    · rintro id rfl
      exact h events id [] rfl
  · rintro ⟨hold, hnew⟩ pre id post heq
    rcases List.eq_nil_or_concat post with rfl | ⟨post, last, rfl⟩
    · obtain ⟨rfl, he⟩ := List.append_inj' heq rfl
      exact hnew id (List.cons.inj he).1
    · have hsplit : events ++ [e] = (pre ++ .invoked id :: post) ++ [last] := by
        rw [heq]
        simp
      obtain ⟨rfl, -⟩ := List.append_inj' hsplit rfl
      exact hold pre id post rfl

theorem atMostOnce_append {new : List Event} (hnew : ∀ id, .invoked id ∉ new) :
    AtMostOnce (events ++ new) ↔ AtMostOnce events := by
  induction new using List.reverseRecOn with
  | nil => simp
  | append_singleton new e ih =>
      rw [← List.append_assoc, atMostOnce_snoc, ih fun id h => hnew id (by simp [h])]
      refine and_iff_left ?_
      rintro id rfl
      exact absurd (by simp) (hnew id)

/-- The events stay in order exactly when no callback removes one that comes after it. -/
theorem atMostOnce_visits (hids : ∀ v ∈ visits, v.id < r.nextId) :
    AtMostOnce (events ++ visitEvents visits r) ↔
      AtMostOnce events ∧ (∀ v ∈ visits, .removed v.id ∉ events ∧ .invoked v.id ∉ events) ∧
      (visits.map Visit.id).Nodup ∧
      visits.Pairwise fun v w => ∀ op ∈ v.ops, op.target ≠ some w.id := by
  induction visits generalizing events r with
  | nil => simp [visitEvents]
  | cons v rest ih =>
      obtain ⟨hv, hrest⟩ := List.forall_mem_cons.mp hids
      have hnext : r.nextId ≤ (updateAll v.ops r).nextId := by
        rw [updateAll_nextId]
        exact le_issued _ _
      have hregroup : events ++ visitEvents (v :: rest) r =
          ((events ++ [.invoked v.id]) ++ opEvents v.ops r) ++
            visitEvents rest (updateAll v.ops r) := by
        simp [visitEvents]
      rw [hregroup, ih fun w hw => Nat.lt_of_lt_of_le (hrest w hw) hnext,
        atMostOnce_append fun _ => invoked_not_mem_opEvents, atMostOnce_snoc,
        List.map_cons, List.nodup_cons, List.pairwise_cons, List.forall_mem_cons]
      have hlater : (∀ w ∈ rest, .removed w.id ∉ (events ++ [.invoked v.id]) ++ opEvents v.ops r ∧
            .invoked w.id ∉ (events ++ [.invoked v.id]) ++ opEvents v.ops r) ↔
          (∀ w ∈ rest, .removed w.id ∉ events ∧ .invoked w.id ∉ events) ∧
            v.id ∉ rest.map Visit.id ∧ ∀ w ∈ rest, ∀ op ∈ v.ops, op.target ≠ some w.id := by
        have hone : ∀ w ∈ rest,
            (.removed w.id ∉ (events ++ [.invoked v.id]) ++ opEvents v.ops r ∧
              .invoked w.id ∉ (events ++ [.invoked v.id]) ++ opEvents v.ops r) ↔
            (.removed w.id ∉ events ∧ .invoked w.id ∉ events) ∧ w.id ≠ v.id ∧
              ∀ op ∈ v.ops, op.target ≠ some w.id := by
          intro w hw
          simp only [List.mem_append, List.mem_singleton, reduceCtorEq, or_false, not_or,
            Event.invoked.injEq, invoked_not_mem_opEvents,
            removed_mem_opEvents_of_lt (hrest w hw), not_exists, not_and]
          tauto
        constructor
        · intro h
          refine ⟨fun w hw => ((hone w hw).mp (h w hw)).1, ?_, fun w hw =>
            ((hone w hw).mp (h w hw)).2.2⟩
          rintro hmem
          obtain ⟨w, hw, hsame⟩ := List.mem_map.mp hmem
          exact ((hone w hw).mp (h w hw)).2.1 hsame
        · rintro ⟨hold, hdiff, hkeep⟩ w hw
          exact (hone w hw).mpr ⟨hold w hw,
            fun hsame => hdiff (List.mem_map.mpr ⟨w, hw, hsame⟩), hkeep w hw⟩
      rw [hlater]
      simp only [Event.invoked.injEq, forall_eq']
      tauto

end Disposal

/-! ## §6  Runs -/

/-- What the events name has been given out, and what is registered is neither removed nor
invoked. -/
structure Numbered (s : History) : Prop where
  registered : ∀ id, .registered id ∈ s.events → id < s.registry.nextId
  removed : ∀ id, .removed id ∈ s.events → id < s.registry.nextId
  invoked : ∀ id, .invoked id ∈ s.events → id < s.registry.nextId
  live : ∀ id ∈ s.registry.callbacks,
    id < s.registry.nextId ∧ .removed id ∉ s.events ∧ .invoked id ∉ s.events

section Runs

variable {s t : History} {c : Call}

theorem Numbered.start : Numbered .start where
  registered _ h := by cases h
  removed _ h := by cases h
  invoked _ h := by cases h
  live id h := by cases h

theorem ExactlyOnce.start : ExactlyOnce .start where
  once := atMostOnce_nil
  kept _ h := by cases h
  all _ h := by cases h

theorem Numbered.edit (h : Numbered s) (op : Op) : Numbered (op.exec s) := by
  have hnext : s.registry.nextId ≤ (op.update s.registry).nextId := by
    rw [update_nextId]
    exact le_issued _ _
  constructor
  · intro id hid
    rcases List.mem_append.mp hid with hold | hnew
    · exact Nat.lt_of_lt_of_le (h.registered id hold) hnext
    · obtain ⟨⟨callback, rfl⟩, rfl⟩ := registered_mem_event.mp hnew
      exact Nat.lt_succ_self _
  · intro id hid
    rcases List.mem_append.mp hid with hold | hnew
    · exact Nat.lt_of_lt_of_le (h.removed id hold) hnext
    · exact Nat.lt_of_lt_of_le (removed_mem_event.mp hnew).2 hnext
  · intro id hid
    rcases List.mem_append.mp hid with hold | hnew
    · exact Nat.lt_of_lt_of_le (h.invoked id hold) hnext
    · rcases mem_event_cases hnew with ⟨_, hne⟩ | ⟨_, hne⟩ <;> cases hne
  · intro id hid
    have hnot : .invoked id ∉ op.event s.registry := by
      intro hnew
      rcases mem_event_cases hnew with ⟨_, hne⟩ | ⟨_, hne⟩ <;> cases hne
    have hsplit : ∀ e, e ∈ (op.exec s).events ↔ e ∈ s.events ∨ e ∈ op.event s.registry :=
      fun e => List.mem_append
    simp only [hsplit, not_or]
    rcases mem_update_callbacks.mp hid with ⟨⟨callback, rfl⟩, rfl⟩ | ⟨htarget, hmem⟩
    · refine ⟨Nat.lt_succ_self _, ⟨fun hold => ?_, ?_⟩, fun hold => ?_, hnot⟩
      · exact Nat.lt_irrefl _ (h.removed _ hold)
      · simp [Op.event]
      · exact Nat.lt_irrefl _ (h.invoked _ hold)
    · obtain ⟨hlt, hremoved, hinvoked⟩ := h.live id hmem
      refine ⟨Nat.lt_of_lt_of_le hlt hnext, ⟨hremoved, fun hnew => ?_⟩, hinvoked, hnot⟩
      exact htarget (removed_mem_event.mp hnew).1

/-- A call outside a disposal does no harm. -/
theorem ExactlyOnce.edit (hn : Numbered s) (h : ExactlyOnce s) (op : Op) :
    ExactlyOnce (op.exec s) where
  once := by
    refine (atMostOnce_append fun id hnew => ?_).mpr h.once
    rcases mem_event_cases hnew with ⟨_, hne⟩ | ⟨_, hne⟩ <;> cases hne
  kept id hid := by
    rcases List.mem_append.mp hid with hold | hnew
    · rcases h.kept id hold with hremoved | hinvoked | hmem
      · exact .inl (List.mem_append_left _ hremoved)
      · exact .inr (.inl (List.mem_append_left _ hinvoked))
      · by_cases htarget : op.target = some id
        · have hlt := (hn.live id hmem).1
          exact .inl (List.mem_append_right _ (removed_mem_event.mpr ⟨htarget, hlt⟩))
        · exact .inr (.inr (mem_update_callbacks.mpr (.inr ⟨htarget, hmem⟩)))
    · obtain ⟨hregisters, rfl⟩ := registered_mem_event.mp hnew
      exact .inr (.inr (mem_update_callbacks.mpr (.inl ⟨hregisters, rfl⟩)))
  all ids hids id hid := by
    rcases List.mem_append.mp hids with hold | hnew
    · exact List.mem_append_left _ (h.all ids hold id hid)
    · rcases mem_event_cases hnew with ⟨_, hne⟩ | ⟨_, hne⟩ <;> cases hne

section Dispose

variable {visits : List Visit}
  (order : (visits.map Visit.entry).Perm s.registry.callbacks.entries)
include order

theorem visited_iff (id : ℕ) : (∃ v ∈ visits, v.id = id) ↔ id ∈ s.registry.callbacks := by
  have hkeys : (visits.map Visit.id).Perm s.registry.callbacks.keys := by
    have hmap := order.map Sigma.fst
    rwa [List.map_map] at hmap
  rw [AList.mem_keys, ← hkeys.mem_iff, List.mem_map]

theorem visits_nodup : (visits.map Visit.id).Nodup := by
  have hmap := order.map Sigma.fst
  rw [List.map_map] at hmap
  exact hmap.nodup_iff.mpr s.registry.callbacks.nodupKeys

theorem mem_dispose_events (e : Event) : e ∈ ((Call.dispose visits).exec s).events ↔
    e ∈ s.events ∨ e = .disposing (visits.map Visit.id) ∨
      (∃ id ∈ s.registry.callbacks, e = .invoked id) ∨
      e ∈ opEvents (visits.flatMap Visit.ops) s.registry := by
  rw [dispose_eq, List.mem_append, List.mem_cons, mem_visitEvents]
  have hvisits : (∃ v ∈ visits, e = .invoked v.id) ↔
      ∃ id ∈ s.registry.callbacks, e = .invoked id := by
    constructor
    · rintro ⟨v, hv, rfl⟩
      exact ⟨v.id, (visited_iff order v.id).mp ⟨v, hv, rfl⟩, rfl⟩
    · rintro ⟨id, hid, rfl⟩
      obtain ⟨v, hv, rfl⟩ := (visited_iff order id).mpr hid
      exact ⟨v, hv, rfl⟩
  rw [hvisits]

theorem Numbered.dispose (h : Numbered s) : Numbered ((Call.dispose visits).exec s) := by
  have hnext : ((Call.dispose visits).exec s).registry.nextId =
      issued s.registry.nextId (visits.flatMap Visit.ops) := by
    rw [dispose_eq]
    exact updateAll_nextId _ _
  have hle := le_issued s.registry.nextId (visits.flatMap Visit.ops)
  constructor
  · intro id hid
    rw [hnext]
    rcases (mem_dispose_events order _).mp hid with hold | hne | ⟨_, -, hne⟩ | hnew
    · exact Nat.lt_of_lt_of_le (h.registered id hold) hle
    · cases hne
    · cases hne
    · obtain ⟨pre, callback, post, hsplit, rfl⟩ := registered_mem_opEvents.mp hnew
      rw [hsplit, issued_append]
      refine Nat.lt_of_lt_of_le (Nat.lt_succ_self _) ?_
      simp [issued]
  · intro id hid
    rw [hnext]
    rcases (mem_dispose_events order _).mp hid with hold | hne | ⟨_, -, hne⟩ | hnew
    · exact Nat.lt_of_lt_of_le (h.removed id hold) hle
    · cases hne
    · cases hne
    · obtain ⟨pre, op, post, hsplit, -, hlt⟩ := removed_mem_opEvents.mp hnew
      rw [hsplit, issued_append]
      exact Nat.lt_of_lt_of_le hlt (le_issued _ _)
  · intro id hid
    rw [hnext]
    rcases (mem_dispose_events order _).mp hid with hold | hne | ⟨id', hmem, hsame⟩ | hnew
    · exact Nat.lt_of_lt_of_le (h.invoked id hold) hle
    · cases hne
    · obtain rfl := Event.invoked.inj hsame
      exact Nat.lt_of_lt_of_le (h.live id hmem).1 hle
    · exact absurd hnew invoked_not_mem_opEvents
  · intro id hid
    rw [dispose_eq] at hid
    cases hid

/-- The order of the events is kept exactly when no callback removes a later one. -/
theorem atMostOnce_dispose_iff (hn : Numbered s) (h : AtMostOnce s.events) :
    AtMostOnce ((Call.dispose visits).exec s).events ↔
      visits.Pairwise fun v w => ∀ op ∈ v.ops, op.target ≠ some w.id := by
  have hlive : ∀ v ∈ visits, v.id < s.registry.nextId ∧ .removed v.id ∉ s.events ∧
      .invoked v.id ∉ s.events :=
    fun v hv => hn.live v.id ((visited_iff order v.id).mp ⟨v, hv, rfl⟩)
  have hregroup : ((Call.dispose visits).exec s).events =
      (s.events ++ [.disposing (visits.map Visit.id)]) ++ visitEvents visits s.registry := by
    rw [dispose_eq]
    simp
  rw [hregroup, atMostOnce_visits fun v hv => (hlive v hv).1]
  constructor
  · rintro ⟨-, -, -, hpairwise⟩
    exact hpairwise
  · intro hpairwise
    refine ⟨?_, fun v hv => ?_, visits_nodup order, hpairwise⟩
    · exact (atMostOnce_append fun id hid => by simp at hid).mpr h
    · obtain ⟨-, hremoved, hinvoked⟩ := hlive v hv
      simp [hremoved, hinvoked]

theorem ExactlyOnce.dispose (hn : Numbered s) (h : ExactlyOnce s)
    (horderly : Orderly s (.dispose visits)) :
    ExactlyOnce ((Call.dispose visits).exec s) := by
  obtain ⟨hpairwise, hwithdrawn⟩ := horderly
  have hmem := mem_dispose_events order
  constructor
  · exact (atMostOnce_dispose_iff order hn h.once).mpr hpairwise
  · intro id hid
    rcases (hmem _).mp hid with hold | hne | ⟨_, -, hne⟩ | hnew
    · rcases h.kept id hold with hremoved | hinvoked | hlive
      · exact .inl ((hmem _).mpr (.inl hremoved))
      · exact .inr (.inl ((hmem _).mpr (.inl hinvoked)))
      · exact .inr (.inl ((hmem _).mpr (.inr (.inr (.inl ⟨id, hlive, rfl⟩)))))
    · cases hne
    · cases hne
    · obtain ⟨pre, callback, post, hsplit, rfl⟩ := registered_mem_opEvents.mp hnew
      obtain ⟨op, hop, htarget⟩ := hwithdrawn pre callback post hsplit
      obtain ⟨between, rest, rfl⟩ := List.append_of_mem hop
      refine .inl ((hmem _).mpr (.inr (.inr (.inr (removed_mem_opEvents.mpr ?_)))))
      refine ⟨pre ++ .onDispose callback :: between, op, rest, ?_, htarget, ?_⟩
      · rw [hsplit]
        simp
      · rw [issued_append]
        refine Nat.lt_of_lt_of_le (Nat.lt_succ_self _) ?_
        simp [issued]
  · intro ids hids id hid
    rcases (hmem _).mp hids with hold | hsame | ⟨_, -, hne⟩ | hnew
    · exact (hmem _).mpr (.inl (h.all ids hold id hid))
    · obtain rfl := Event.disposing.inj hsame
      obtain ⟨v, hv, rfl⟩ := List.mem_map.mp hid
      have hlive := (visited_iff order v.id).mp ⟨v, hv, rfl⟩
      exact (hmem _).mpr (.inr (.inr (.inl ⟨v.id, hlive, rfl⟩)))
    · cases hne
    · exact absurd hnew disposing_not_mem_opEvents

/-- A disposal that is not orderly calls a callback that was removed or loses one. -/
theorem ExactlyOnce.orderly (hn : Numbered s) (h : AtMostOnce s.events)
    (hafter : ExactlyOnce ((Call.dispose visits).exec s)) : Orderly s (.dispose visits) := by
  have hmem := mem_dispose_events order
  refine ⟨(atMostOnce_dispose_iff order hn h).mp hafter.once, ?_⟩
  intro pre callback post hsplit
  have hregistered : .registered (issued s.registry.nextId pre) ∈
      opEvents (visits.flatMap Visit.ops) s.registry :=
    registered_mem_opEvents.mpr ⟨pre, callback, post, hsplit, rfl⟩
  have hge := le_issued s.registry.nextId pre
  rcases hafter.kept _ ((hmem _).mpr (.inr (.inr (.inr hregistered)))) with
    hremoved | hinvoked | hlive
  · rcases (hmem _).mp hremoved with hold | hne | ⟨_, -, hne⟩ | hnew
    · exact absurd (hn.removed _ hold) (by omega)
    · cases hne
    · cases hne
    · obtain ⟨pre', op, post', hsplit', htarget, hlt⟩ := removed_mem_opEvents.mp hnew
      -- the removal stands behind the registration
      rcases List.append_eq_append_iff.mp (hsplit.symm.trans hsplit') with
        ⟨between, hpre', hbetween⟩ | ⟨between, hpre, hbetween⟩
      · cases between with
        | nil =>
            rw [List.nil_append] at hbetween
            obtain ⟨rfl, -⟩ := List.cons.inj hbetween
            cases htarget
        | cons head between =>
            obtain ⟨-, rfl⟩ := List.cons.inj hbetween
            exact ⟨op, by simp, htarget⟩
      · rw [hpre, issued_append] at hlt
        exact absurd hlt (Nat.not_lt.mpr (le_issued _ _))
  · rcases (hmem _).mp hinvoked with hold | hne | ⟨id, hlive, hsame⟩ | hnew
    · exact absurd (hn.invoked _ hold) (by omega)
    · cases hne
    · rw [Event.invoked.inj hsame] at hge
      exact absurd (hn.live id hlive).1 (by omega)
    · exact absurd hnew invoked_not_mem_opEvents
  · rw [dispose_eq] at hlive
    cases hlive

end Dispose

theorem Numbered.step (h : Numbered s) (hstep : Step s c t) : Numbered t := by
  obtain ⟨order⟩ := hstep
  cases c with
  | edit op => exact h.edit op
  | dispose visits => exact h.dispose (order visits rfl)

/-- **Dispose callbacks run once.** In a run of registrations, removals and disposals, whatever
the callbacks do, throw or not, and in whatever order they are visited, this holds throughout
exactly when in every disposal no callback removes one that is still to be called and every
callback registered in it is removed in it. -/
theorem exactlyOnce_throughout_iff {tr : List (History × Call)} (run : Run Step .start tr s) :
    Throughout ExactlyOnce tr s ↔ Guarded Orderly tr := by
  refine run.throughout_iff_guarded Numbered.start (fun _ _ _ => Numbered.step) ExactlyOnce.start
    ?_ ?_
  · rintro s c t hn h horderly ⟨order⟩
    cases c with
    | edit op => exact h.edit hn op
    | dispose visits => exact h.dispose (order visits rfl) hn horderly
  · rintro s c t hn h hnot ⟨order⟩ hafter
    cases c with
    | edit op => exact hnot trivial
    | dispose visits => exact hnot (hafter.orderly (order visits rfl) hn h.once)

end Runs

section Concrete

def register (callback : Callback) : Call := .edit (.onDispose callback)

def registered : History := (register 20).exec ((register 10).exec .start)

theorem run_registered : Run Step .start
    [(.start, register 10), ((register 10).exec .start, register 20)] registered :=
  (Run.nil.snoc ⟨by rintro visits ⟨⟩⟩).snoc ⟨by rintro visits ⟨⟩⟩

/-- Both callbacks throw. -/
def bothThrow : Call := .dispose [⟨2, 20, [], .error "first"⟩, ⟨1, 10, [], .error "second"⟩]

/-- The first callback removes the second. -/
def removesNext : Call :=
  .dispose [⟨1, 10, [.removeDisposeCallback "0x2"], .ok ()⟩, ⟨2, 20, [], .ok ()⟩]

/-- The first callback registers another. -/
def registersAnother : Call := .dispose [⟨1, 10, [.onDispose 30], .ok ()⟩, ⟨2, 20, [], .ok ()⟩]

theorem step_bothThrow : Step registered bothThrow (bothThrow.exec registered) :=
  ⟨by rintro visits ⟨⟩; exact List.Perm.refl _⟩

theorem step_removesNext : Step registered removesNext (removesNext.exec registered) :=
  ⟨by rintro visits ⟨⟩; exact List.Perm.swap _ _ _⟩

theorem step_registersAnother :
    Step registered registersAnother (registersAnother.exec registered) :=
  ⟨by rintro visits ⟨⟩; exact List.Perm.swap _ _ _⟩

theorem once_though_thrown : Throughout ExactlyOnce
    [(.start, register 10), ((register 10).exec .start, register 20), (registered, bothThrow)]
    (bothThrow.exec registered) := by
  refine (exactlyOnce_throughout_iff (run_registered.snoc step_bothThrow)).mpr ?_
  intro p hp
  simp only [List.mem_cons, List.cons_append, List.nil_append, List.not_mem_nil, or_false] at hp
  rcases hp with rfl | rfl | rfl
  · trivial
  · trivial
  · refine ⟨by simp, ?_⟩
    intro pre callback post hsplit
    simp at hsplit

/-- A callback removed in the disposal is called all the same, and one registered in it is
neither called nor kept. -/
theorem called_removed_and_lost :
    (removesNext.exec registered).events = [.registered 1, .registered 2, .disposing [1, 2],
      .invoked 1, .removed 2, .invoked 2] ∧
    (registersAnother.exec registered).events = [.registered 1, .registered 2,
      .disposing [1, 2], .invoked 1, .registered 3, .invoked 2] ∧
    (∃ tr, Run Step .start tr (removesNext.exec registered) ∧
      ¬ Throughout ExactlyOnce tr (removesNext.exec registered)) ∧
    ∃ tr, Run Step .start tr (registersAnother.exec registered) ∧
      ¬ Throughout ExactlyOnce tr (registersAnother.exec registered) := by
  have hremoved : (removesNext.exec registered).events = [.registered 1, .registered 2,
      .disposing [1, 2], .invoked 1, .removed 2, .invoked 2] := by decide
  have hlost : (registersAnother.exec registered).events = [.registered 1, .registered 2,
      .disposing [1, 2], .invoked 1, .registered 3, .invoked 2] := by decide
  refine ⟨hremoved, hlost, ⟨_, run_registered.snoc step_removesNext, fun h => ?_⟩,
    ⟨_, run_registered.snoc step_registersAnother, fun h => ?_⟩⟩
  · have honce := h.2.once
    rw [hremoved] at honce
    exact (honce [.registered 1, .registered 2, .disposing [1, 2], .invoked 1, .removed 2] 2 []
      rfl).1 (by decide)
  · rcases h.2.kept 3 (by rw [hlost]; decide) with hremoved | hinvoked | hkept
    · rw [hlost] at hremoved
      exact absurd hremoved (by decide)
    · rw [hlost] at hinvoked
      exact absurd hinvoked (by decide)
    · cases hkept

end Concrete

end ScriptLifecycle

end Chromatic
