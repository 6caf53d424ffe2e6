import ProjectAutomation.Spec.Assumptions
import ProjectAutomation.Spec.Schedule
import ProjectAutomation.Spec.Validate
import ProjectAutomation.Text.Separator

/-!
# Fire times, schedule keys and the dispatch table

* `scheduleKey_inj`: a key belongs to one rule and one instant.
* `initialNextFire_isSome`, `initialNextFire_some`: a rule write sets a fire time
  exactly for an enabled schedule, and one after the clock.
* `replacePendingSchedule_ok`: what a successful `replacePendingSchedule` does to the
  dispatch table, row by row (`settle`).
-/

namespace ProjectAutomation

open Relational

variable {env : Env} {s : Session}

theorem except_bind_eq_ok {ε α β : Type} {x : Except ε α} {f : α → Except ε β} {b : β} :
    (x >>= f) = .ok b ↔ ∃ a, x = .ok a ∧ f a = .ok b := by
  cases x with
  | error e => simp [bind, Except.bind]
  | ok a => simp [bind, Except.bind]

theorem except_bind_eq_error {ε α β : Type} {x : Except ε α} {f : α → Except ε β} {e : ε} :
    (x >>= f) = .error e ↔ x = .error e ∨ ∃ a, x = .ok a ∧ f a = .error e := by
  cases x with
  | error e => simp [bind, Except.bind]
  | ok a => simp [bind, Except.bind]

/-! ## Keys -/

theorem Env.UuidOK.text_inj (h : env.UuidOK) {ns ns' : Namespace} {name name' : String}
    (he : (env.newV5 ns name).text = (env.newV5 ns' name').text) : ns = ns' ∧ name = name' := by
  apply h
  cases hu : env.newV5 ns name; cases hv : env.newV5 ns' name'
  rw [hu, hv] at he
  exact congrArg Uuid.mk he

/-- **A schedule key names one rule and one instant.** -/
theorem scheduleKey_inj (h : env.UuidOK) {ruleId ruleId' : String} {t t' : OffsetDateTime}
    (he : scheduleKey env ruleId t = scheduleKey env ruleId' t') :
    ruleId = ruleId' ∧ t.unixNanos = t'.unixNanos := by
  unfold scheduleKey at he
  have ht := (h.text_inj ((String.append_right_inj _).1 he)).2
  exact Text.join_int_inj (c := ':') (by decide) (by decide) (by decide) ht

theorem scheduleKey_congr {ruleId : String} {t t' : OffsetDateTime} (h : t.unixNanos = t'.unixNanos) :
    scheduleKey env ruleId t = scheduleKey env ruleId t' := by
  unfold scheduleKey; rw [h]

/-! ## Stored triggers -/

theorem triggerKind_toValue (t : Trigger) : triggerKind t.toValue = some t.kind.name := rfl

/-- A trigger the endpoint admits, as the column holds it. -/
def TriggerOK (env : Env) (v : Value) : Prop :=
  ∃ t : Trigger, v = t.toValue ∧ validTrigger (fun text => (env.parseRfc3339 text).isSome) t = true

theorem TriggerOK.interval {v : Value} (h : TriggerOK env v) (hk : triggerKind v = some "schedule") :
    ∃ i, intervalSeconds v = some i ∧ 60 ≤ i ∧ i ≤ 31536000 := by
  obtain ⟨t, rfl, hv⟩ := h
  rw [triggerKind_toValue] at hk
  unfold validTrigger at hv
  cases hkind : t.kind with
  | event => rw [hkind] at hk; exact absurd hk (by decide)
  | schedule =>
    simp only [hkind, Bool.and_eq_true] at hv
    cases hi : t.intervalSeconds with
    | none => simp [hi] at hv
    | some i =>
      have hb : 60 ≤ i ∧ i ≤ 31536000 := by simpa [hi] using hv.1.2
      refine ⟨i, ?_, hb⟩
      have hg : t.toValue.get "interval_seconds" = some (.number i) := by
        show some (Value.ofOption .number t.intervalSeconds) = _
        rw [hi]; rfl
      unfold intervalSeconds
      rw [hg]
      show (if -2 ^ 63 ≤ i ∧ i < 2 ^ 63 then some i else none) = some i
      rw [if_pos (by omega)]

/-- What a fire time is counted from, the start of the trigger or else the clock, is a whole
microsecond. -/
def WholeBase (env : Env) (now : OffsetDateTime) (v : Value) : Prop :=
  match v.getStr "start_at" with
  | none => now.WholeMicros
  | some text => (env.parseRfc3339 text).all (fun start => decide start.WholeMicros) = true

instance (env : Env) (now : OffsetDateTime) (v : Value) : Decidable (WholeBase env now v) :=
  match h : v.getStr "start_at" with
  | none => decidable_of_iff now.WholeMicros (by simp [WholeBase, h])
  | some text => decidable_of_iff ((env.parseRfc3339 text).all (fun start => decide start.WholeMicros) = true)
      (by simp [WholeBase, h])

/-! ## The first fire time -/

theorem orInvalid_eq_ok {α : Type} {x : Option α} {a : α} : orInvalid x = .ok a ↔ x = some a := by
  cases x <;> simp [orInvalid]

theorem startAt_eq_ok {v : Value} {o : Option OffsetDateTime} (h : startAt env v = .ok o) :
    (v.getStr "start_at" = none ∧ o = none) ∨
      ∃ text start, v.getStr "start_at" = some text ∧ env.parseRfc3339 text = some start ∧ o = some start := by
  unfold startAt at h
  split at h
  · rename_i hn; cases h; exact Or.inl ⟨hn, rfl⟩
  · rename_i text hs
    right
    unfold parseTime at h
    cases hp : env.parseRfc3339 text with
    | none => rw [hp] at h; cases h
    | some start =>
      rw [hp] at h
      exact ⟨text, start, hs, hp, (Except.ok.inj h).symm⟩

/-- A product that fits has a factor that did not saturate. -/
theorem saturatingSucc_of_product {interval q seconds : ℤ} (hi : 2 ≤ interval)
    (h : checkedMul interval (saturatingSucc q) = some seconds) :
    saturatingSucc q = q + 1 ∧ seconds = interval * (q + 1) := by
  unfold checkedMul at h
  split at h
  · rename_i hb
    cases h
    have hk : saturatingSucc q = q + 1 := by
      unfold saturatingSucc at hb ⊢
      by_contra hne
      have hmax : min (q + 1) i64Max = i64Max := by omega
      rw [hmax] at hb
      unfold i64Min i64Max at hb
      have := hb.2
      omega
    exact ⟨hk, by rw [hk]⟩
  · cases h

/-- The grid point is on the grid, after `now`. -/
theorem nextGridPoint_ok {start now n : OffsetDateTime} {interval : ℤ} (hi : 2 ≤ interval)
    (hle : start.unixNanos ≤ now.unixNanos) (h : nextGridPoint start now interval = .ok n) :
    ∃ k, n.unixNanos = start.unixNanos + interval * k * nanosPerSecond ∧ now.unixNanos < n.unixNanos := by
  unfold nextGridPoint at h
  simp only at h
  split at h
  · cases h
  rw [except_bind_eq_ok] at h
  obtain ⟨seconds, hs, hn⟩ := h
  rw [orInvalid_eq_ok] at hs hn
  have hn := OffsetDateTime.checkedAdd_eq_some hn
  obtain ⟨-, rfl⟩ := saturatingSucc_of_product hi hs
  refine ⟨_, hn, ?_⟩
  set elapsed := now.wholeSecondsSince start with he
  -- past the start, both divisions round down
  have he0 : 0 ≤ elapsed := Int.tdiv_nonneg (by omega) (by decide)
  have hel : elapsed = (now.unixNanos - start.unixNanos) / nanosPerSecond :=
    Int.tdiv_eq_ediv_of_nonneg (by omega)
  have hq : elapsed.tdiv interval = elapsed / interval := Int.tdiv_eq_ediv_of_nonneg he0
  rw [hq] at hn
  have hlt : elapsed < (elapsed / interval + 1) * interval := Int.lt_ediv_add_one_mul_self _ (by omega)
  rw [mul_comm] at hlt
  set step := interval * (elapsed / interval + 1)
  unfold nanosPerSecond at *
  omega

/-- A fire time is set exactly for an enabled schedule. -/
theorem initialNextFire_isSome {now : OffsetDateTime} {v : Value} {enabled : Bool}
    {next : Option OffsetDateTime} (h : initialNextFire env now v enabled = .ok next) :
    next.isSome = true ↔ enabled = true ∧ triggerKind v = some "schedule" := by
  unfold initialNextFire at h
  split at h
  · rename_i hc
    cases h
    simp only [Option.isSome_none, Bool.false_eq_true, false_iff, not_and]
    rintro rfl hk
    simp [hk] at hc
  · rename_i hc
    have hc' : enabled = true ∧ triggerKind v = some "schedule" := by simpa using hc
    simp only [hc', and_self, iff_true]
    rw [except_bind_eq_ok] at h
    obtain ⟨i, -, h⟩ := h
    rw [except_bind_eq_ok] at h
    obtain ⟨o, -, h⟩ := h
    cases o with
    | some start =>
      simp only at h
      split at h
      · cases h; rfl
      · rw [except_bind_eq_ok] at h
        obtain ⟨n, -, h⟩ := h
        cases h; rfl
    | none =>
      simp only at h
      rw [except_bind_eq_ok] at h
      obtain ⟨n, -, h⟩ := h
      cases h; rfl

theorem orInvalid_error {α : Type} {x : Option α} {e : StorageError} (h : orInvalid x = .error e) :
    e = .domain .invalidRequest := by
  cases x with
  | none => exact (Except.error.inj h).symm
  | some a => cases h

/-- The grid has a next point, or the dates have no room for it. -/
theorem nextGridPoint_error {start now : OffsetDateTime} {interval : ℤ} {e : StorageError} (hi : 2 ≤ interval)
    (h : nextGridPoint start now interval = .error e) : e = .domain .invalidRequest := by
  unfold nextGridPoint at h
  simp only at h
  rw [if_neg (by omega), except_bind_eq_error] at h
  rcases h with h | ⟨seconds, -, h⟩
  · exact orInvalid_error h
  · exact orInvalid_error h

/-- **A stored trigger has a first fire time, or it is rejected.** -/
theorem initialNextFire_error {now : OffsetDateTime} {v : Value} {enabled : Bool} {e : StorageError}
    (hv : TriggerOK env v) (h : initialNextFire env now v enabled = .error e) : e = .domain .invalidRequest := by
  unfold initialNextFire at h
  split at h
  · cases h
  rename_i hc
  have hk : triggerKind v = some "schedule" := by
    by_contra hne
    exact hc (by simp [hne])
  obtain ⟨i, hi, hlo, -⟩ := hv.interval hk
  rw [hi, except_bind_eq_error] at h
  rcases h with h | ⟨_, he, h⟩
  · exact orInvalid_error h
  cases he
  rw [except_bind_eq_error] at h
  rcases h with h | ⟨start, -, h⟩
  · unfold startAt at h
    split at h
    · cases h
    · rename_i text _
      unfold parseTime at h
      cases hp : env.parseRfc3339 text with
      | none => rw [hp] at h; exact (Except.error.inj h).symm
      | some t => rw [hp] at h; cases h
  · cases start with
    | none =>
      simp only at h
      rw [except_bind_eq_error] at h
      rcases h with h | ⟨_, -, h⟩
      · exact orInvalid_error h
      · cases h
    | some start =>
      simp only at h
      split at h
      · cases h
      rw [except_bind_eq_error] at h
      rcases h with h | ⟨_, -, h⟩
      · exact nextGridPoint_error (by omega) h
      · cases h

/-- **The fire time a rule write sets** is after the clock, whole seconds from the start of the
trigger, or from the clock. -/
theorem initialNextFire_some {now n : OffsetDateTime} {v : Value} {enabled : Bool} (hv : TriggerOK env v)
    (h : initialNextFire env now v enabled = .ok (some n)) :
    now.unixNanos < n.unixNanos ∧ ∃ base seconds, n.unixNanos = base.unixNanos + seconds * nanosPerSecond ∧
      (v.getStr "start_at" = none ∧ base = now ∨
        ∃ text, v.getStr "start_at" = some text ∧ env.parseRfc3339 text = some base) := by
  have hk := ((initialNextFire_isSome h).1 rfl).2
  obtain ⟨i, hi, hlo, -⟩ := hv.interval hk
  unfold initialNextFire at h
  split at h
  · cases h
  rw [except_bind_eq_ok] at h
  obtain ⟨i', hi', h⟩ := h
  rw [orInvalid_eq_ok, hi] at hi'
  cases hi'
  rw [except_bind_eq_ok] at h
  obtain ⟨o, ho, h⟩ := h
  rcases startAt_eq_ok ho with ⟨hnone, rfl⟩ | ⟨text, start, ht, hp, rfl⟩
  · simp only at h
    rw [except_bind_eq_ok] at h
    obtain ⟨n', hn', h⟩ := h
    cases h
    have hadd := OffsetDateTime.checkedAdd_eq_some (orInvalid_eq_ok.1 hn')
    refine ⟨?_, now, i, hadd, Or.inl ⟨hnone, rfl⟩⟩
    unfold nanosPerSecond at hadd
    omega
  · simp only at h
    split at h
    · rename_i hgt
      cases h
      exact ⟨hgt, n, 0, by simp, Or.inr ⟨text, ht, hp⟩⟩
    · rw [except_bind_eq_ok] at h
      obtain ⟨n', hn', h⟩ := h
      cases h
      obtain ⟨k, hk, hafter⟩ := nextGridPoint_ok (by omega) (by omega) hn'
      exact ⟨hafter, start, i * k, hk, Or.inr ⟨text, ht, hp⟩⟩

theorem wholeMicros_add_seconds {t t' : OffsetDateTime} {seconds : ℤ}
    (h : t'.unixNanos = t.unixNanos + seconds * nanosPerSecond) : t'.WholeMicros ↔ t.WholeMicros := by
  unfold OffsetDateTime.WholeMicros nanosPerSecond at *
  omega

/-- **A fire time is a whole microsecond exactly when what it is counted from is.** -/
theorem initialNextFire_whole {now n : OffsetDateTime} {v : Value} {enabled : Bool} (hv : TriggerOK env v)
    (h : initialNextFire env now v enabled = .ok (some n)) : n.WholeMicros ↔ WholeBase env now v := by
  obtain ⟨-, base, seconds, hn, hbase⟩ := initialNextFire_some hv h
  rw [wholeMicros_add_seconds hn]
  unfold WholeBase
  rcases hbase with ⟨hnone, rfl⟩ | ⟨text, ht, hp⟩
  · rw [hnone]
  · rw [ht]; simp [hp]

/-! ## The dispatch table -/

/-- What `replace_pending_schedule` makes of a dispatch that is already there. -/
def settle (ruleId : String) (next : Option ℤ) (d : DispatchRow) : DispatchRow :=
  if d.ruleId = ruleId ∧ d.state = .pending ∧ some d.scheduledFor ≠ next then
    { d with state := .cancelled }
  else if d.ruleId = ruleId ∧ d.state = .cancelled ∧ some d.scheduledFor = next then
    { d with state := .pending, lastFailure := none }
  else d

/-- The dispatch table after `replace_pending_schedule`. -/
structure Rescheduled (env : Env) (organizationId ruleId : String) (next : Option OffsetDateTime)
    (t t' : Table DispatchRow.key) : Prop where
  rows : t'.rows = t.rows.map (settle ruleId (next.map encodeTimestamptz)) ∨
    ∃ n, next = some n ∧ (∀ d ∈ t, d.key ≠ (ruleId, encodeTimestamptz n)) ∧
      t'.rows = t.rows.map (settle ruleId (next.map encodeTimestamptz)) ++
        [newDispatch env organizationId ruleId n]
  present : ∀ n, next = some n → ∃ d ∈ t', d.key = (ruleId, encodeTimestamptz n)
  bindable : ∀ n, next = some n → n.Bindable

/-- Only the state and the last failure of a dispatch are settled. -/
theorem settle_eq (ruleId : String) (next : Option ℤ) (d : DispatchRow) :
    ∃ state lastFailure, settle ruleId next d = { d with state, lastFailure } := by
  unfold settle
  split
  · exact ⟨_, _, rfl⟩
  · split
    · exact ⟨_, _, rfl⟩
    · exact ⟨_, _, rfl⟩

theorem settle_key (ruleId : String) (next : Option ℤ) (d : DispatchRow) :
    (settle ruleId next d).key = d.key := by
  obtain ⟨_, _, h⟩ := settle_eq ruleId next d
  rw [h]; rfl

theorem settle_copy (ruleId : String) (next : Option ℤ) (d : DispatchRow) :
    (settle ruleId next d).copy = d.copy := by
  obtain ⟨_, _, h⟩ := settle_eq ruleId next d
  rw [h]; rfl

theorem settle_organizationId (ruleId : String) (next : Option ℤ) (d : DispatchRow) :
    (settle ruleId next d).organizationId = d.organizationId :=
  congrArg ScheduleDispatch.organizationId (settle_copy ruleId next d)

theorem settle_idempotencyKey (ruleId : String) (next : Option ℤ) (d : DispatchRow) :
    (settle ruleId next d).idempotencyKey = d.idempotencyKey :=
  congrArg ScheduleDispatch.idempotencyKey (settle_copy ruleId next d)

theorem settle_ruleId (ruleId : String) (next : Option ℤ) (d : DispatchRow) :
    (settle ruleId next d).ruleId = d.ruleId :=
  congrArg ScheduleDispatch.ruleId (settle_copy ruleId next d)

theorem settle_of_ne {ruleId : String} {next : Option ℤ} {d : DispatchRow} (h : d.ruleId ≠ ruleId) :
    settle ruleId next d = d := by
  unfold settle
  rw [if_neg (fun hc => h hc.1), if_neg (fun hc => h hc.1)]

/-- A dispatch is pending after its rule was settled only at the rule's time. -/
theorem settle_pending {ruleId : String} {next : Option ℤ} {d : DispatchRow} (hr : d.ruleId = ruleId)
    (h : (settle ruleId next d).state = .pending) : some d.scheduledFor = next := by
  by_contra hne
  unfold settle at h
  split at h
  · cases h
  · rename_i hp
    rw [if_neg (fun hc => hne hc.2.2)] at h
    exact hp ⟨hr, h, hne⟩

/-- The dispatch at the rule's time is pending or enqueued. -/
theorem settle_at {ruleId : String} {next : Option ℤ} {d : DispatchRow} (hr : d.ruleId = ruleId)
    (hn : some d.scheduledFor = next) : (settle ruleId next d).state ≠ .cancelled := by
  unfold settle
  rw [if_neg (fun hc => hc.2.2 hn)]
  split
  · simp
  · rename_i hc
    exact fun h => hc ⟨hr, h, hn⟩

theorem settle_enqueued {ruleId : String} {next : Option ℤ} {d : DispatchRow} :
    (settle ruleId next d).state = .enqueued ↔ d.state = .enqueued := by
  unfold settle
  split
  · rename_i hc; simp [hc.2.1]
  · split
    · rename_i hc; simp [hc.2.1]
    · rfl

theorem cancelPending_rows (ruleId : String) (keep : Option ℤ) (t : Table DispatchRow.key) :
    (cancelPending ruleId keep t).rows = t.rows.map (fun d =>
      if d.ruleId = ruleId ∧ d.state = .pending ∧ some d.scheduledFor ≠ keep then
        { d with state := .cancelled } else d) := by
  unfold cancelPending
  rw [Table.rows_update]
  apply List.map_congr_left
  intro d _
  simp [and_assoc]

theorem mem_cancelPending_key {ruleId : String} {keep : Option ℤ} {t : Table DispatchRow.key}
    {k : String × ℤ} : (∃ d ∈ cancelPending ruleId keep t, d.key = k) ↔ ∃ d ∈ t, d.key = k := by
  have h : (cancelPending ruleId keep t).rows.map DispatchRow.key = t.rows.map DispatchRow.key :=
    Table.map_update (f := fun d : DispatchRow => { d with state := .cancelled }) ⟨fun _ => rfl⟩ (fun _ _ => rfl)
  constructor
  · rintro ⟨d, hd, rfl⟩
    have : d.key ∈ t.rows.map DispatchRow.key := h ▸ List.mem_map.2 ⟨d, hd, rfl⟩
    exact List.mem_map.1 this
  · rintro ⟨d, hd, rfl⟩
    have : d.key ∈ (cancelPending ruleId keep t).rows.map DispatchRow.key := h ▸ List.mem_map.2 ⟨d, hd, rfl⟩
    exact List.mem_map.1 this

/-- Cancelling the others and reopening the one at the new time settles every row. -/
theorem reopen_cancel_rows (ruleId : String) (n : ℤ) (t : Table DispatchRow.key) :
    (reopenCancelled ruleId n (cancelPending ruleId (some n) t)).rows =
      t.rows.map (settle ruleId (some n)) := by
  unfold reopenCancelled
  rw [Table.rows_update, cancelPending_rows, List.map_map]
  apply List.map_congr_left
  intro d _
  simp only [Function.comp_apply, settle]
  by_cases h₁ : d.ruleId = ruleId ∧ d.state = .pending ∧ some d.scheduledFor ≠ some n
  · have hn : d.scheduledFor ≠ n := fun h => h₁.2.2 (by rw [h])
    rw [if_pos h₁, if_pos h₁]
    simp [hn]
  · rw [if_neg h₁, if_neg h₁]
    simp only [Bool.and_eq_true, decide_eq_true_eq, Option.some.injEq]
    by_cases h₂ : d.ruleId = ruleId ∧ d.state = .cancelled ∧ d.scheduledFor = n
    · rw [if_pos h₂, if_pos ⟨⟨h₂.1, h₂.2.2⟩, h₂.2.1⟩]
    · rw [if_neg h₂, if_neg (fun hc => h₂ ⟨hc.1.1, hc.2, hc.1.2⟩)]

/-- With no row at the new time there is nothing to reopen. -/
theorem cancel_rows_of_absent {ruleId : String} {next : Option ℤ} {t : Table DispatchRow.key}
    (h : ∀ d ∈ t, d.ruleId = ruleId → some d.scheduledFor ≠ next) :
    (cancelPending ruleId next t).rows = t.rows.map (settle ruleId next) := by
  rw [cancelPending_rows]
  apply List.map_congr_left
  intro d hd
  unfold settle
  split
  · rfl
  · rw [if_neg (fun hc => h d hd hc.1 hc.2.2)]

/-- What the upsert of a dispatch does: it reopens the row at its key, or adds the first one there. -/
theorem upsertDispatch_ok {row : DispatchRow} {db : Database} {r : Unit × Database}
    (h : upsertDispatch s row db = .ok r) :
    ∃ t, r = ((), { db with dispatches := t }) ∧
      ((∃ d ∈ db.dispatches, d.key = row.key) ∧ t = reopenCancelled row.ruleId row.scheduledFor db.dispatches ∨
        (∀ d ∈ db.dispatches, d.key ≠ row.key) ∧ t.rows = db.dispatches.rows ++ [row]) := by
  unfold upsertDispatch at h
  rw [statement_bind_eq_ok, Txn.get_bind] at h
  obtain ⟨-, h⟩ := h
  split at h
  · rename_i hsome
    rw [Txn.set_eq_ok] at h
    obtain ⟨d, hd⟩ := Option.isSome_iff_exists.1 hsome
    exact ⟨_, h, Or.inl ⟨⟨d, Table.find?_eq_some.1 hd⟩, rfl⟩⟩
  split at h
  · exact absurd h Txn.throw_ne_ok
  cases ht : db.dispatches.insert? row with
  | none => rw [ht] at h; exact absurd h Txn.throw_ne_ok
  | some t =>
    rw [ht] at h
    simp only [Txn.set_eq_ok] at h
    exact ⟨t, h, Or.inr (Table.insert?_eq_some.1 ht)⟩

theorem upsertDispatch_served {row : DispatchRow} {db : Database} {r : Unit × Database}
    (h : upsertDispatch s row db = .ok r) : s.faults "create schedule dispatch" = none := by
  unfold upsertDispatch at h
  exact (statement_bind_eq_ok.1 h).1

theorem replacePendingSchedule_served {organizationId ruleId : String} {next : OffsetDateTime} {db : Database}
    {r : Unit × Database} (h : replacePendingSchedule s organizationId ruleId (some next) db = .ok r) :
    s.faults "cancel superseded schedule" = none ∧ s.faults "create schedule dispatch" = none := by
  unfold replacePendingSchedule at h
  simp only [ofExcept_bind_eq_ok, statement_bind_eq_ok, Txn.modify_bind] at h
  obtain ⟨_, -, hcancel, h⟩ := h
  exact ⟨hcancel, upsertDispatch_served h⟩

/-- **What `replace_pending_schedule` does**, when it succeeds. -/
theorem replacePendingSchedule_ok {organizationId ruleId : String} {next : Option OffsetDateTime}
    {db : Database} {r : Unit × Database}
    (h : replacePendingSchedule s organizationId ruleId next db = .ok r) :
    ∃ t, r = ((), { db with dispatches := t }) ∧
      Rescheduled s.env organizationId ruleId next db.dispatches t := by
  unfold replacePendingSchedule at h
  cases next with
  | none =>
    simp only [statement_bind_eq_ok, Txn.modify_eq_ok] at h
    obtain ⟨-, rfl⟩ := h
    refine ⟨_, rfl, ⟨Or.inl ?_, by simp, by simp⟩⟩
    exact cancel_rows_of_absent (fun _ _ _ => by simp)
  | some n =>
    simp only [ofExcept_bind_eq_ok, bindTimestamptz_eq_ok, statement_bind_eq_ok, Txn.modify_bind] at h
    obtain ⟨_, ⟨hbind, rfl⟩, -, h⟩ := h
    have hbindable : ∀ n', some n = some n' → n'.Bindable := by
      rintro n' ⟨⟩
      exact hbind
    obtain ⟨t, rfl, ⟨hthere, rfl⟩ | ⟨habs, hrows⟩⟩ := upsertDispatch_ok h
    · -- the row at the new time is settled with the others
      refine ⟨_, rfl, ⟨Or.inl (reopen_cancel_rows _ _ _), ?_, hbindable⟩⟩
      rintro n' ⟨⟩
      obtain ⟨d, hd, hk⟩ := mem_cancelPending_key.1 hthere
      refine ⟨settle ruleId (some (encodeTimestamptz n)) d, ?_, by rw [settle_key, hk]; rfl⟩
      rw [← Table.mem_rows]
      show _ ∈ (reopenCancelled ruleId (encodeTimestamptz n) _).rows
      rw [reopen_cancel_rows]
      exact List.mem_map.2 ⟨d, hd, rfl⟩
    · have habs₀ : ∀ d ∈ db.dispatches, d.key ≠ (ruleId, encodeTimestamptz n) := by
        intro d hd hk
        obtain ⟨d', hd', hk'⟩ := mem_cancelPending_key.2 ⟨d, hd, hk⟩
        exact habs d' hd' hk'
      refine ⟨t, rfl, ⟨Or.inr ⟨n, rfl, habs₀, ?_⟩, ?_, hbindable⟩⟩
      · rw [hrows, cancel_rows_of_absent]
        · rfl
        · intro d hd hr hn
          exact habs₀ d hd (Prod.ext hr (Option.some.inj hn))
      · rintro n' ⟨⟩
        refine ⟨newDispatch s.env organizationId ruleId n, ?_, rfl⟩
        rw [← Table.mem_rows, hrows]
        exact List.mem_append_right _ (List.mem_singleton.2 rfl)

namespace Rescheduled

variable {organizationId ruleId : String} {next : Option OffsetDateTime} {t t' : Table DispatchRow.key}
  {d : DispatchRow}

/-- A row of the new table was there before, or is the new dispatch at a time that had none. -/
theorem cases (h : Rescheduled env organizationId ruleId next t t') (hd : d ∈ t') :
    (∃ d₀ ∈ t, settle ruleId (next.map encodeTimestamptz) d₀ = d) ∨
      ∃ n, next = some n ∧ d = newDispatch env organizationId ruleId n ∧
        ∀ d₀ ∈ t, d₀.key ≠ (ruleId, encodeTimestamptz n) := by
  rw [← Table.mem_rows] at hd
  rcases h.rows with hr | ⟨n, hn, habs, hr⟩
  · rw [hr] at hd
    exact Or.inl (List.mem_map.1 hd)
  · rw [hr, List.mem_append, List.mem_singleton] at hd
    rcases hd with hd | rfl
    · exact Or.inl (List.mem_map.1 hd)
    · exact Or.inr ⟨n, hn, rfl, habs⟩

theorem mem_settle (h : Rescheduled env organizationId ruleId next t t') (hd : d ∈ t) :
    settle ruleId (next.map encodeTimestamptz) d ∈ t' := by
  rw [← Table.mem_rows]
  have hm := List.mem_map_of_mem (f := settle ruleId (next.map encodeTimestamptz)) hd
  rcases h.rows with hr | ⟨n, -, -, hr⟩
  · rw [hr]; exact hm
  · rw [hr]; exact List.mem_append_left _ hm

/-- The dispatches of the other rules are left alone. -/
theorem mem_of_ne (h : Rescheduled env organizationId ruleId next t t') (hd : d ∈ t)
    (hr : d.ruleId ≠ ruleId) : d ∈ t' := by
  have := h.mem_settle hd
  rwa [settle_of_ne hr] at this

theorem of_mem_of_ne (h : Rescheduled env organizationId ruleId next t t') (hd : d ∈ t')
    (hr : d.ruleId ≠ ruleId) : d ∈ t := by
  rcases h.cases hd with ⟨d₀, hd₀, he⟩ | ⟨n, -, rfl, -⟩
  · have hk := congrArg Prod.fst (settle_key ruleId (next.map encodeTimestamptz) d₀)
    rw [he] at hk
    have hr₀ : d₀.ruleId ≠ ruleId := fun h₀ => hr (hk.trans h₀)
    rw [settle_of_ne hr₀] at he
    exact he ▸ hd₀
  · exact absurd rfl hr

/-- Only the dispatch at the new time can be pending. -/
theorem pending (h : Rescheduled env organizationId ruleId next t t') (hd : d ∈ t')
    (hr : d.ruleId = ruleId) (hp : d.state = .pending) : some d.scheduledFor = next.map encodeTimestamptz := by
  rcases h.cases hd with ⟨d₀, hd₀, rfl⟩ | ⟨n, rfl, rfl, -⟩
  · have hk := settle_key ruleId (next.map encodeTimestamptz) d₀
    have h₁ : d₀.ruleId = ruleId := (congrArg Prod.fst hk).symm.trans hr
    rw [show (settle ruleId _ d₀).scheduledFor = d₀.scheduledFor from congrArg Prod.snd hk]
    exact settle_pending h₁ hp
  · rfl

/-- The dispatch at the new time is there and not cancelled. -/
theorem at_next (h : Rescheduled env organizationId ruleId next t t') {n : OffsetDateTime}
    (hn : next = some n) :
    ∃ d ∈ t', d.ruleId = ruleId ∧ d.scheduledFor = encodeTimestamptz n ∧ d.state ≠ .cancelled := by
  obtain ⟨d, hd, hk⟩ := h.present n hn
  refine ⟨d, hd, congrArg Prod.fst hk, congrArg Prod.snd hk, ?_⟩
  rcases h.cases hd with ⟨d₀, hd₀, rfl⟩ | ⟨n', -, rfl, -⟩
  · rw [settle_key] at hk
    apply settle_at (congrArg Prod.fst hk)
    rw [hn]
    exact congrArg some (congrArg Prod.snd hk)
  · simp [newDispatch]

end Rescheduled

end ProjectAutomation
