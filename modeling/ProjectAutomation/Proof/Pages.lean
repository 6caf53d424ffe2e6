import Mathlib.Data.String.Basic
import ProjectAutomation.Paging.Keyset
import ProjectAutomation.Proof.Authority
import ProjectAutomation.Proof.Batch
import ProjectAutomation.Proof.Endpoints
import ProjectAutomation.Proof.Numbers
import ProjectAutomation.Relational.Select

/-!
# Following a cursor

`list_rules` and the attempts of `inspect_execution` are read in pages, each behind the
cursor of the one before (`Paging.Page`). Between two pages anything may happen.

* `parseRevision_toString`: a cursor is read back as the number it was written for.
* `Follows`: the pages of a client that follows a cursor, each read in a run of its own.
* `Follows.walk`: they are a walk by keys.
* `pages_lose_and_repeat_nothing`: what such a client is told.
-/

namespace ProjectAutomation

open Relational Table Paging

variable {env : Env} {w : World} {events : List Event} {after : Option String} {limit : ℤ} {answer : Value}
  {organizationId : String} {s : Session}

/-! ## Cursors -/

theorem digits_toString (n : ℕ) : digits? (toString n).toList = some n := by
  have hlist : (toString n).toList = Nat.toDigits 10 n := by
    rw [Nat.toString_eq_repr, Nat.toList_repr]
  have hdigits : ∀ c ∈ Nat.toDigits 10 n, c.isDigit = true := fun c hc =>
    Nat.isDigit_of_mem_toDigits (by decide) (by decide) hc
  unfold digits?
  rw [hlist, if_neg]
  · rw [← Nat.ofDigitChars_eq_foldl, Nat.ofDigitChars_ten_toDigits]
  · simpa [Nat.toDigits_ne_nil] using hdigits

/-- **A cursor is read back.** -/
theorem parseRevision_toString {n : ℤ} (hpos : 0 < n) (hlt : n < 2 ^ 63) :
    parseRevision? (toString n) = some n := by
  obtain ⟨m, rfl⟩ := Int.eq_ofNat_of_zero_le hpos.le
  have htext : toString (m : ℤ) = toString m := rfl
  unfold parseRevision?
  rw [htext, digits_toString]
  exact if_pos ⟨by omega, by omega, rfl⟩

/-- The number a request is read behind. -/
def afterNumber (after : Option String) : ℤ := (after.bind parseRevision?).getD 0

theorem afterCursor_ok {n : ℤ} (h : afterCursor after = .ok n) : n = afterNumber after := by
  unfold afterCursor at h
  unfold afterNumber
  cases after with
  | none =>
    cases h
    rfl
  | some text =>
    simp only at h
    rw [orInvalid_eq_ok] at h
    simp [h]

/-- The cursor of a page, as the answer shows it. -/
def cursorJson (next : Option ℤ) : Value := .ofOption (fun n => .string (toString n)) next

/-! ## A client that follows its cursor -/

/-- One page a client read: the run it was read after, its request and its answer. -/
structure PageRead where
  events : List Event
  after : Option String
  limit : ℤ
  answer : Value
  /-- the cursor it was given -/
  next : Option String

def PageRead.world (env : Env) (read : PageRead) : World := (automation env).run read.events

/-- A client reads page after page, each behind the cursor at `field` of the one before, until there
is none. `asks` tells which answers a request may get; anything may happen in between. -/
inductive Follows (env : Env) (asks : World → Option String → ℤ → Value → Prop) (field : String) :
    List Event → Option String → List PageRead → Prop
  | last {events : List Event} {after : Option String} {limit : ℤ} {answer : Value} :
    asks ((automation env).run events) after limit answer → answer.get field = some .null →
    Follows env asks field events after [⟨events, after, limit, answer, none⟩]
  | more {events later : List Event} {after : Option String} {limit : ℤ} {answer : Value} {cursor : String}
      {reads : List PageRead} :
    asks ((automation env).run events) after limit answer → answer.get field = some (.string cursor) →
    Follows env asks field (events ++ later) (some cursor) reads →
    Follows env asks field events after (⟨events, after, limit, answer, some cursor⟩ :: reads)

/-- An answered request is a page of `rows`: it holds `page`, and its cursor is at `field`. -/
structure Shows {α : Type} (key : α → ℤ) (rows : Set α) (page : List α) (field : String) (after : Option String)
    (limit : ℤ) (answer : Value) (next : Option ℤ) : Prop where
  page : Page key rows (afterNumber after) limit.toNat page next
  cursor : answer.get field = some (cursorJson next)
  limit : 1 ≤ limit ∧ limit ≤ 100

section Follows

variable {α : Type} {asks : World → Option String → ℤ → Value → Prop} {field : String} {key : α → ℤ}
  {rows : World → Set α} {page : PageRead → List α} {accepts : String → Prop} {reads : List PageRead}

/-- Every answer of the client's requests shows the rows there are, and the next request takes its cursor. -/
def ShowsEach (env : Env) (asks : World → Option String → ℤ → Value → Prop) (field : String) (key : α → ℤ)
    (rows : World → Set α) (page : PageRead → List α) (accepts : String → Prop) (read : PageRead) : Prop :=
  asks (read.world env) read.after read.limit read.answer →
    ∃ next, Shows key (rows (read.world env)) (page read) field read.after read.limit read.answer next ∧
      ∀ n, next = some n → parseRevision? (toString n) = some n ∧ accepts (toString n)

/-- What a client that read them all knows of each page. -/
theorem Follows.read (h : Follows env asks field events after reads) : ∀ read ∈ reads,
    asks (read.world env) read.after read.limit read.answer ∧
      read.answer.get field = some (.ofOption .string read.next) := by
  induction h with
  | last hasks hnull =>
    intro read hread
    cases List.mem_singleton.1 hread
    exact ⟨hasks, hnull⟩
  | more hasks hcursor _ ih =>
    intro read hread
    rcases List.mem_cons.1 hread with rfl | hread
    · exact ⟨hasks, hcursor⟩
    · exact ih read hread

/-- The runs of two reads are one before the other. -/
theorem Follows.ordered (h : Follows env asks field events after reads) :
    (∀ read ∈ reads, ∃ later, read.events = events ++ later) ∧ ∀ read ∈ reads, ∀ read' ∈ reads,
      (∃ later, read'.events = read.events ++ later) ∨ ∃ later, read.events = read'.events ++ later := by
  induction h with
  | last =>
    refine ⟨fun read hread => ?_, fun read hread read' hread' => ?_⟩
    · cases List.mem_singleton.1 hread
      exact ⟨[], (List.append_nil _).symm⟩
    · cases List.mem_singleton.1 hread
      cases List.mem_singleton.1 hread'
      exact Or.inl ⟨[], (List.append_nil _).symm⟩
  | @more events between _ _ _ _ reads _ _ _ ih =>
    have hall : ∀ read ∈ reads, ∃ later, read.events = events ++ later := by
      intro read hread
      obtain ⟨later, hlater⟩ := ih.1 read hread
      exact ⟨between ++ later, by rw [hlater, List.append_assoc]⟩
    refine ⟨fun read hread => ?_, fun read hread read' hread' => ?_⟩
    · rcases List.mem_cons.1 hread with rfl | hread
      · exact ⟨[], (List.append_nil _).symm⟩
      · exact hall read hread
    · rcases List.mem_cons.1 hread with rfl | hread <;> rcases List.mem_cons.1 hread' with rfl | hread'
      · exact Or.inl ⟨[], (List.append_nil _).symm⟩
      · exact Or.inl (hall read' hread')
      · exact Or.inr (hall read hread)
      · exact ih.2 read hread read' hread'

/-- The cursor a client is given is the one of the page. -/
theorem Shows.next_eq {rows : Set α} {page : List α} {next : Option ℤ} {given : Option String}
    (h : Shows key rows page field after limit answer next)
    (hgiven : answer.get field = some (.ofOption .string given)) : given = next.map toString := by
  rw [h.cursor] at hgiven
  cases next <;> cases given <;> simp_all [cursorJson, Value.ofOption]

/-- What a read found, and what it returned. -/
def PageRead.found (env : Env) (rows : World → Set α) (page : PageRead → List α) (read : PageRead) : Read α :=
  ⟨rows (read.world env), page read⟩

theorem returned_found (env : Env) (rows : World → Set α) (page : PageRead → List α) (reads : List PageRead) :
    returned (reads.map (PageRead.found env rows page)) = reads.flatMap page := by
  unfold returned
  rw [List.flatMap_map]
  rfl

/-- **A client's pages are a walk** by the keys of the rows. -/
theorem Follows.walk (h : Follows env asks field events after reads)
    (hshows : ∀ read ∈ reads, ShowsEach env asks field key rows page accepts read) :
    Walk key (afterNumber after) (reads.map (PageRead.found env rows page)) := by
  induction h with
  | last hasks hnull =>
    obtain ⟨next, hshow, -⟩ := hshows _ List.mem_cons_self hasks
    have hnext := hshow.next_eq (show _ = some (Value.ofOption .string none) from hnull)
    rw [eq_comm, Option.map_eq_none_iff] at hnext
    subst hnext
    exact .last hshow.page
  | @more _ _ _ _ _ cursor _ hasks hcursor _ ih =>
    obtain ⟨next, hshow, hparse⟩ := hshows _ List.mem_cons_self hasks
    have hnext := hshow.next_eq (show _ = some (Value.ofOption .string (some cursor)) from hcursor)
    obtain ⟨n, rfl, rfl⟩ := Option.map_eq_some_iff.1 hnext.symm
    have hrest := ih fun read hread => hshows read (List.mem_cons_of_mem _ hread)
    -- the next request reads behind the last key
    have hback : afterNumber (some (toString n)) = n := by
      show (parseRevision? (toString n)).getD 0 = n
      rw [(hparse n rfl).1]
      rfl
    rw [hback] at hrest
    exact .more hshow.page hrest

/-- **Nothing is lost and nothing repeated.** `key` orders the rows, `name` tells which row is which
from one read to the next, and `accepts` which cursors the next request may carry. -/
structure Paged {ι : Type} [DecidableEq ι] (env : Env) (key : α → ℤ) (name : α → ι) (rows : World → Set α)
    (page : PageRead → List α) (accepts : String → Prop) (reads : List PageRead) : Prop where
  limit : ∀ read ∈ reads, ((page read).length : ℤ) ≤ read.limit
  matching : ∀ read ∈ reads, ∀ a ∈ page read, a ∈ rows (read.world env)
  next : ∀ read ∈ reads, read.next.isSome = true ↔
    ∃ a ∈ rows (read.world env), afterNumber read.after < key a ∧ a ∉ page read
  accepted : ∀ read ∈ reads, ∀ cursor, read.next = some cursor → accepts cursor
  increasing : (reads.flatMap page).Pairwise (fun a b => key a < key b)
  nodup : ((reads.flatMap page).map name).Nodup
  once : ∀ i, (∀ read ∈ reads, ∃ a ∈ rows (read.world env), name a = i) →
    ((reads.flatMap page).map name).count i = 1
  unchanged : ∀ S, (∀ read ∈ reads, rows (read.world env) = S) → ∀ a, a ∈ reads.flatMap page ↔ a ∈ S

theorem Follows.paged {ι : Type} [DecidableEq ι] {name : α → ι} (h : Follows env asks field events none reads)
    (hshows : ∀ read ∈ reads, ShowsEach env asks field key rows page accepts read)
    (hpos : ∀ read ∈ reads, ∀ a ∈ rows (read.world env), 0 < key a)
    (hname : ∀ read ∈ reads, ∀ a ∈ rows (read.world env), ∀ read' ∈ reads, ∀ b ∈ rows (read'.world env),
      name a = name b ↔ key a = key b) : Paged env key name rows page accepts reads := by
  have hwalk : Walk key 0 (reads.map (PageRead.found env rows page)) := h.walk hshows
  have hnames : Walk.Names name key (reads.map (PageRead.found env rows page)) :=
    List.forall_mem_map.2 fun read hread a ha =>
      List.forall_mem_map.2 fun read' hread' b hb => hname read hread a ha read' hread' b hb
  have heach : ∀ read ∈ reads, ∃ next,
      Shows key (rows (read.world env)) (page read) field read.after read.limit read.answer next ∧
        read.next = next.map toString ∧ ∀ n, next = some n → accepts (toString n) := by
    intro read hread
    obtain ⟨hasks, hcursor⟩ := h.read read hread
    obtain ⟨next, hshow, hparse⟩ := hshows read hread hasks
    exact ⟨next, hshow, hshow.next_eq hcursor, fun n hn => (hparse n hn).2⟩
  refine ⟨fun read hread => ?_, fun read hread a ha => ?_, fun read hread => ?_, fun read hread cursor hcursor => ?_,
    ?_, ?_, fun i hi => ?_, fun S hS a => ?_⟩
  · obtain ⟨next, hshow, -⟩ := heach read hread
    have := hshow.page.length_le
    have := hshow.limit
    omega
  · obtain ⟨next, hshow, -⟩ := heach read hread
    exact (hshow.page.selected a ha).1
  · obtain ⟨next, hshow, hnext, -⟩ := heach read hread
    rw [hnext, Option.isSome_map]
    exact hshow.page.isSome_iff
  · obtain ⟨next, -, hnext, haccepts⟩ := heach read hread
    rw [hcursor] at hnext
    obtain ⟨n, rfl, rfl⟩ := Option.map_eq_some_iff.1 hnext.symm
    exact haccepts n rfl
  · rw [← returned_found env rows page reads]
    exact hwalk.increasing
  · rw [← returned_found env rows page reads]
    exact hwalk.nodup hnames
  · rw [← returned_found env rows page reads]
    exact hwalk.once hnames (List.forall_mem_map.2 hpos) (List.forall_mem_map.2 hi)
  · rw [← returned_found env rows page reads, hwalk.complete (List.forall_mem_map.2 hS)]
    -- every row lies behind the first request
    obtain ⟨read, hread⟩ : ∃ read, read ∈ reads := by
      cases h <;> exact ⟨_, List.mem_cons_self⟩
    exact and_iff_left_of_imp fun ha => hpos read hread a (hS read hread ▸ ha)

end Follows

/-- The cursor the code computes is the one of the page. -/
theorem nextCursor_eq {α : Type} (key : α → ℤ) (limit : ℕ) (rows : List α) :
    nextCursor (limit < (rows.take (limit + 1)).length)
      (((rows.take (limit + 1)).take limit).getLast?.map key) = cursorJson (cursorOf key limit rows) := by
  rw [← cursorOf_take_succ]
  unfold nextCursor cursorOf
  by_cases h : limit < (rows.take (limit + 1)).length
  · rw [if_pos h, if_pos (decide_eq_true h)]
    rfl
  · rw [if_neg h, if_neg (by simpa using h)]
    rfl

/-! ## Rules -/

section Rules

variable {enabled : Option Bool} {db : Database}

/-- The rules a listing is about. -/
def matchingRules (organizationId : String) (enabled : Option Bool) (w : World) : Set RuleRow :=
  {r | r ∈ w.db.rules ∧ r.organizationId = organizationId ∧ r.live = true ∧ ∀ b, enabled = some b → r.enabled = b}

/-- They lie behind a cursor. -/
def rulesBehind (db : Database) (organizationId : String) (enabled : Option Bool) (n : ℤ) : List RuleRow :=
  db.rules.select (RuleRow.listed organizationId enabled n) RuleRow.before

/-- The rules on a page. -/
def listedPage (env : Env) (organizationId : String) (enabled : Option Bool) (read : PageRead) : List RuleRow :=
  (rulesBehind (read.world env).db organizationId enabled (afterNumber read.after)).take read.limit.toNat

theorem mem_rulesBehind {n : ℤ} {r : RuleRow} : r ∈ rulesBehind w.db organizationId enabled n ↔
    r ∈ matchingRules organizationId enabled w ∧ n < r.rowSeq := by
  unfold rulesBehind matchingRules
  rw [mem_select, Set.mem_ofPred_eq]
  cases enabled <;> simp [RuleRow.listed] <;> tauto

/-- The place of a rule: its number, then its id. -/
def RuleRow.place (r : RuleRow) : ℤ ×ₗ String := toLex (r.rowSeq, r.ruleId)

theorem ruleBefore_orderedBy : OrderedBy RuleRow.before RuleRow.place := by
  refine ⟨fun a b => ?_⟩
  unfold RuleRow.place
  rw [Prod.Lex.toLex_le_toLex]
  exact Iff.rfl

/-- Rules are listed by their numbers. -/
theorem rulesBehind_strict {n : ℤ} (hseq : SeqOK db) :
    (rulesBehind db organizationId enabled n).Pairwise (fun a b => a.rowSeq < b.rowSeq) := by
  have hplace : ∀ a b : RuleRow, a.place = b.place → a.rowSeq = b.rowSeq ∧ a.ruleId = b.ruleId := fun a b h =>
    Prod.mk.inj (toLex_inj.1 h)
  have hstrict := select_strict (t := db.rules) (p := RuleRow.listed organizationId enabled n) ruleBefore_orderedBy
    (separates_of_key fun a b h => (hplace a b h).2)
  refine hstrict.imp_of_mem fun {a b} ha hb hlt => ?_
  unfold RuleRow.place at hlt
  rcases Prod.Lex.toLex_lt_toLex.1 hlt with h | ⟨h, hid⟩
  · exact h
  · rw [hseq a (mem_select.1 ha).1 b (mem_select.1 hb).1 h] at hid
    exact absurd hid (lt_irrefl _)

/-- What `list_rules` answers. -/
theorem listRules_page {m : ℕ} {r : Ending Value × Database} (hm : 0 < m)
    (h : listRules s organizationId enabled m after db = .ok r) :
    let rows := rulesBehind db organizationId enabled (afterNumber after)
    ∃ items, (rows.take m).mapM (ruleJson s.env) = .ok items ∧
      r = (.drop (.object [("items", .array items), ("next_cursor", cursorJson (cursorOf RuleRow.rowSeq m rows))]),
        db) := by
  obtain ⟨n, items, hn, hitems, rfl⟩ := listRules_cases h
  cases afterCursor_ok hn
  have hlisted : listedRules db organizationId enabled (afterNumber after) m =
    (rulesBehind db organizationId enabled (afterNumber after)).take (m + 1) := rfl
  rw [hlisted] at hitems ⊢
  set rows := rulesBehind db organizationId enabled (afterNumber after)
  -- the rows that are kept
  rw [← List.take_eq_take_min, take_take_succ] at hitems
  rw [← getLast?_take_eq hm, nextCursor_eq]
  exact ⟨items, hitems, rfl⟩

/-- A call of `list_rules` may be answered so. -/
def AsksRules (env : Env) (organizationId : String) (enabled : Option Bool) (w : World) (after : Option String)
    (limit : ℤ) (answer : Value) : Prop :=
  ∃ (plugin : ProjectAutomationPlugin) (host : Host) (around : CallAround) (context : Ctx),
    (plugin.listRules env host around context ⟨after, enabled, limit, organizationId⟩ w).result = .ok answer

/-- A listing with this cursor is accepted, whatever rules and however many of them it asks for. -/
def AcceptsRules (organizationId cursor : String) : Prop :=
  ∀ enabled limit, 1 ≤ limit → limit ≤ 100 →
    (⟨some cursor, enabled, limit, organizationId⟩ : ListRulesRequest).valid = true

theorem AsksRules.accepts (h : AsksRules env organizationId enabled w after limit answer) {cursor : String}
    (hcursor : (parseRevision? cursor).isSome = true) : AcceptsRules organizationId cursor := by
  obtain ⟨_, _, _, _, h⟩ := h
  have hvalid := (listRules_answered h).1
  simp only [ListRulesRequest.valid, Bool.and_eq_true] at hvalid
  intro enabled limit hlo hhi
  simp [ListRulesRequest.valid, hvalid.1.1, hlo, hhi, hcursor]

/-- An answer of `list_rules` shows the rules that match. -/
theorem AsksRules.shows (h : AsksRules env organizationId enabled w after limit answer) (hseq : SeqOK w.db) :
    let rows := rulesBehind w.db organizationId enabled (afterNumber after)
    ∃ items, (rows.take limit.toNat).mapM (ruleJson env) = .ok items ∧
      answer = .object [("items", .array items),
        ("next_cursor", cursorJson (cursorOf RuleRow.rowSeq limit.toNat rows))] ∧
      Shows RuleRow.rowSeq (matchingRules organizationId enabled w) (rows.take limit.toNat) "next_cursor" after limit
        answer (cursorOf RuleRow.rowSeq limit.toNat rows) := by
  obtain ⟨plugin, host, around, context, h⟩ := h
  obtain ⟨hvalid, h⟩ := listRules_answered h
  have hlimit : 1 ≤ limit ∧ limit ≤ 100 := by
    simp only [ListRulesRequest.valid, Bool.and_eq_true, decide_eq_true_eq] at hvalid
    exact hvalid.1.2
  have hpos : 0 < limit.toNat := by omega
  obtain ⟨ending, db', hb, hending⟩ := transact_answer h
  obtain ⟨items, hitems, heq⟩ := listRules_page hpos hb
  cases heq
  rcases hending with he | he
  · cases he
    exact ⟨items, hitems, rfl, page_of_strict hpos (rulesBehind_strict hseq) fun r => mem_rulesBehind, rfl, hlimit⟩
  · cases he

end Rules

/-! ## Attempts -/

section Attempts

variable {executionId : Uuid} {db : Database}

/-- The attempts of an execution. -/
def attemptsOf (executionId : Uuid) (w : World) : Set AttemptRow :=
  {a | a ∈ w.db.attempts ∧ a.executionId = executionId}

/-- They lie behind a cursor. -/
def attemptsBehind (db : Database) (executionId : Uuid) (n : ℤ) : List AttemptRow :=
  db.attempts.select (fun a => a.executionId = executionId && n < a.attempt) (fun a b => a.attempt ≤ b.attempt)

/-- The number of an attempt, as a cursor has it. -/
def AttemptRow.number (a : AttemptRow) : ℤ := a.attempt

/-- The attempts on a page. -/
def attemptsPage (env : Env) (executionId : Uuid) (read : PageRead) : List AttemptRow :=
  (attemptsBehind (read.world env).db executionId (afterNumber read.after)).take read.limit.toNat

theorem mem_attemptsBehind {n : ℤ} {a : AttemptRow} :
    a ∈ attemptsBehind w.db executionId n ↔ a ∈ attemptsOf executionId w ∧ n < a.number := by
  unfold attemptsBehind attemptsOf AttemptRow.number
  rw [mem_select, Set.mem_ofPred_eq]
  simp [and_assoc]

/-- Attempts are shown in their order. -/
theorem attemptsBehind_strict {n : ℤ} :
    (attemptsBehind db executionId n).Pairwise (fun a b => a.number < b.number) := by
  refine select_strict ⟨fun a b => Int.ofNat_le.symm⟩ fun a ha b hb hpa hpb he => ?_
  simp only [Bool.and_eq_true, decide_eq_true_eq] at hpa hpb
  exact eq_of_key ha hb (Prod.ext (hpa.1.trans hpb.1.symm) (Int.ofNat_inj.1 he))

/-- What `inspect_execution` answers of the attempts. -/
theorem inspectExecution_page {executionsAt receiptsAt : Database} {m : ℕ}
    (h : inspectExecution s executionsAt db receiptsAt organizationId executionId m after = .ok answer) :
    let rows := attemptsBehind db executionId (afterNumber after)
    ∃ items, (rows.take m).mapM (attemptJson s.env) = .ok items ∧
      answer.get "attempt_receipts" = some (.array items) ∧
      answer.get "next_attempt_cursor" = some (cursorJson (cursorOf AttemptRow.number m rows)) := by
  unfold inspectExecution at h
  rw [except_bind_eq_ok] at h
  obtain ⟨⟨e, _⟩, -, h⟩ := h
  simp only [except_bind_eq_ok] at h
  obtain ⟨n, hn, ⟨rows, _⟩, hrows, items, hitems, _, -, actions, -, h⟩ := h
  cases afterCursor_ok hn
  have hselect : rows = (attemptsBehind db executionId (afterNumber after)).take (m + 1) := readAttempts_ok hrows
  rw [hselect, take_take_succ] at hitems
  rw [hselect] at h
  have hcursor := nextCursor_eq AttemptRow.number m (attemptsBehind db executionId (afterNumber after))
  unfold executionJson at h
  simp only [except_bind_eq_ok] at h
  obtain ⟨_, -, _, -, h⟩ := h
  cases h
  exact ⟨items, hitems, rfl, congrArg some hcursor⟩

/-- A call of `inspect_execution` may be answered so. Its first and last statement may find anything. -/
def AsksAttempts (env : Env) (organizationId : String) (executionId : Uuid) (w : World) (after : Option String)
    (limit : ℤ) (answer : Value) : Prop :=
  ∃ (host : Host) (text : String) (s : Session) (executionsAt receiptsAt : Database),
    host.parseUuid text = some executionId ∧
    (⟨after, limit, text, organizationId⟩ : InspectExecutionRequest).valid = true ∧ s.env = env ∧
    inspectExecution s executionsAt w.db receiptsAt organizationId executionId limit.toNat after = .ok answer

/-- So is what the endpoint answers. -/
theorem asksAttempts_of_answered {plugin : ProjectAutomationPlugin} {host : Host} {around : CallAround}
    {context : Ctx} {text : String}
    (h : (plugin.inspectExecution env host around context ⟨after, limit, text, organizationId⟩ w).result =
      .ok answer) :
    ∃ executionId, host.parseUuid text = some executionId ∧
      AsksAttempts env organizationId executionId w after limit answer := by
  obtain ⟨hvalid, executionId, hid, h⟩ := inspectExecution_answered h
  exact ⟨executionId, hid, host, text, _, w.db, w.db, hid, hvalid, rfl, h⟩

/-- An inspection with this cursor is accepted, whatever execution and however many attempts it asks for. -/
def AcceptsAttempts (organizationId cursor : String) : Prop :=
  ∀ text limit, 1 ≤ limit → limit ≤ 100 →
    (⟨some cursor, limit, text, organizationId⟩ : InspectExecutionRequest).valid = true

theorem AsksAttempts.accepts (h : AsksAttempts env organizationId executionId w after limit answer) {cursor : String}
    (hcursor : (parseRevision? cursor).isSome = true) : AcceptsAttempts organizationId cursor := by
  obtain ⟨_, _, _, _, _, -, hvalid, -⟩ := h
  simp only [InspectExecutionRequest.valid, Bool.and_eq_true] at hvalid
  intro text limit hlo hhi
  simp [InspectExecutionRequest.valid, hvalid.1.1, hlo, hhi, hcursor]

/-- An answer of `inspect_execution` shows the attempts of the execution. -/
theorem AsksAttempts.shows (h : AsksAttempts env organizationId executionId w after limit answer) :
    let rows := attemptsBehind w.db executionId (afterNumber after)
    ∃ items, (rows.take limit.toNat).mapM (attemptJson env) = .ok items ∧
      answer.get "attempt_receipts" = some (.array items) ∧
      Shows AttemptRow.number (attemptsOf executionId w) (rows.take limit.toNat) "next_attempt_cursor" after limit
        answer (cursorOf AttemptRow.number limit.toNat rows) := by
  obtain ⟨host, text, s, executionsAt, receiptsAt, -, hvalid, rfl, h⟩ := h
  have hlimit : 1 ≤ limit ∧ limit ≤ 100 := by
    simp only [InspectExecutionRequest.valid, Bool.and_eq_true, decide_eq_true_eq] at hvalid
    exact hvalid.1.2
  obtain ⟨items, hitems, hshown, hcursor⟩ := inspectExecution_page h
  exact ⟨items, hitems, hshown, page_of_strict (by omega) attemptsBehind_strict fun a => mem_attemptsBehind,
    hcursor, hlimit⟩

end Attempts

/-! ## What a client is told -/

/-- **Nothing is lost and nothing repeated**, whatever happens between the pages, when a client follows the cursor
of `list_rules` or that of `inspect_execution`. A page shows its rows, and a cursor is taken by the next request. -/
theorem pages_lose_and_repeat_nothing (env : Env) (organizationId : String) (events : List Event)
    (reads : List PageRead) :
    (∀ enabled, Follows env (AsksRules env organizationId enabled) "next_cursor" events none reads →
      (∀ read ∈ reads, ∀ event ∈ read.events, event.CountsRows) →
      Paged env RuleRow.rowSeq RuleRow.ruleId (matchingRules organizationId enabled)
          (listedPage env organizationId enabled) (AcceptsRules organizationId) reads ∧
        ∀ read ∈ reads, ∃ items, (listedPage env organizationId enabled read).mapM (ruleJson env) = .ok items ∧
          read.answer.get "items" = some (.array items)) ∧
    ∀ executionId, Follows env (AsksAttempts env organizationId executionId) "next_attempt_cursor" events none reads →
      Paged env AttemptRow.number AttemptRow.number (attemptsOf executionId) (attemptsPage env executionId)
          (AcceptsAttempts organizationId) reads ∧
        ∀ read ∈ reads, ∃ items, (attemptsPage env executionId read).mapM (attemptJson env) = .ok items ∧
          read.answer.get "attempt_receipts" = some (.array items) := by
  refine ⟨fun enabled h hcount => ⟨h.paged (fun read hread hasks => ?_) (fun read hread r hr => ?_)
    fun read hread r hr read' hread' r' hr' => ?_, fun read hread => ?_⟩, fun executionId h =>
    ⟨h.paged (fun read hread hasks => ?_) (fun read _ a ha => ?_) fun _ _ a _ _ _ b _ => Iff.rfl,
      fun read hread => ?_⟩⟩
  · obtain ⟨_, -, -, hshows⟩ := hasks.shows (run_seqOK read.events)
    refine ⟨_, hshows, fun n hn => ?_⟩
    -- the cursor is the number of a rule
    obtain ⟨⟨r, hr, rfl⟩, -⟩ := hshows.page.cursor n hn
    have hrange := run_rowSeq_range (hcount read hread) r (hshows.page.selected r hr).1.1
    have hparse := parseRevision_toString hrange.1 hrange.2
    exact ⟨hparse, hasks.accepts (by rw [hparse]; rfl)⟩
  · exact (run_rowSeq_range (hcount read hread) r hr.1).1
  · rcases h.ordered.2 read hread read' hread' with ⟨later, hlater⟩ | ⟨later, hlater⟩
    · refine run_rowSeq read.events later hr.1 ?_
      rw [← hlater]
      exact hr'.1
    · rw [eq_comm, eq_comm (a := r.rowSeq)]
      refine run_rowSeq read'.events later hr'.1 ?_
      rw [← hlater]
      exact hr.1
  · obtain ⟨items, hitems, hanswer, -⟩ := (h.read read hread).1.shows (run_seqOK read.events)
    exact ⟨items, hitems, hanswer ▸ rfl⟩
  · obtain ⟨_, -, -, hshows⟩ := hasks.shows
    refine ⟨_, hshows, fun n hn => ?_⟩
    -- the cursor is the number of an attempt
    obtain ⟨⟨a, ha, rfl⟩, -⟩ := hshows.page.cursor n hn
    have hfit := run_attempt_fits read.events a (hshows.page.selected a ha).1.1
    have hmax : i32Max < 2 ^ 63 := by decide
    have hparse : parseRevision? (toString a.number) = some a.number :=
      parseRevision_toString (Int.natCast_pos.2 hfit.1) (by unfold AttemptRow.number; omega)
    exact ⟨hparse, hasks.accepts (by rw [hparse]; rfl)⟩
  · exact Int.natCast_pos.2 (run_attempt_fits read.events a ha.1).1
  · obtain ⟨items, hitems, hshown, -⟩ := (h.read read hread).1.shows
    exact ⟨items, hitems, hshown⟩

section Sample

open Sample

/-- Two rules, the schedule and the event rule. -/
def twoRules : List Event :=
  [atStart, .command (conn 1 0) auth (nightly 60 none),
    .command (conn 2 0) ⟨"host", "user-2"⟩ (triage (comment none))]

/-- The event rule's execution is claimed again, for half a minute. -/
def claimedTwice : List Event :=
  opening (comment none) ++ [.claimExecutions (conn 0 120) "org-1" "worker-1" 10 30 (fun _ => false)]

/-- The administrator asks for one rule. -/
noncomputable def askRule (events : List Event) (after : Option String) : Except PluginError Value :=
  (ProjectAutomationPlugin.listRules ⟨fourCallers, true⟩ Sample.env openHost
    ⟨conn 0 0, quiet, answers fun _ => served⟩ ⟨some "host", some "list_rules"⟩ ⟨after, none, 1, "org-1"⟩
    ((automation Sample.env).run events)).result

/-- The administrator asks for attempts of the execution. -/
noncomputable def askAttempts (events : List Event) (after : Option String) (limit : ℤ) : Except PluginError Value :=
  (ProjectAutomationPlugin.inspectExecution ⟨fourCallers, true⟩ Sample.env openHost
    ⟨conn 0 0, quiet, answers fun _ => served⟩ ⟨some "host", some "inspect_execution"⟩
    ⟨after, limit, (uuid 1 1).text, "org-1"⟩ ((automation Sample.env).run events)).result

/-- The schedule is disabled between two pages of rules, the execution is claimed a third time between two of
attempts. -/
theorem pages_lose_and_repeat_nothing_triage :
    (∃ reads, (reads.flatMap (listedPage Sample.env "org-1" none)).map RuleRow.ruleId = ["nightly", "triage"] ∧
      reads.length = 2 ∧ Paged Sample.env RuleRow.rowSeq RuleRow.ruleId (matchingRules "org-1" none)
        (listedPage Sample.env "org-1" none) (AcceptsRules "org-1") reads) ∧
    ∃ reads, (reads.flatMap (attemptsPage Sample.env (uuid 1 1))).map AttemptRow.number = [1, 2, 3] ∧
      reads.length = 2 ∧ Paged Sample.env AttemptRow.number AttemptRow.number (attemptsOf (uuid 1 1))
        (attemptsPage Sample.env (uuid 1 1)) (AcceptsAttempts "org-1") reads := by
  constructor
  · have hfirst : ∃ v, askRule twoRules none = .ok v ∧ v.get "next_cursor" = some (.string "1") := ⟨_, rfl, rfl⟩
    have hlast : ∃ v, askRule (twoRules ++ [.command (conn 3 0) auth disable]) (some "1") = .ok v ∧
        v.get "next_cursor" = some .null := ⟨_, rfl, rfl⟩
    obtain ⟨v, hv, hnext⟩ := hfirst
    obtain ⟨v', hv', hnull⟩ := hlast
    have hfollows := Follows.more (show AsksRules Sample.env "org-1" none _ none 1 v from ⟨_, _, _, _, hv⟩) hnext
      (.last (show AsksRules Sample.env "org-1" none _ (some "1") 1 v' from ⟨_, _, _, _, hv'⟩) hnull)
    have hcount : ∀ read ∈ ([⟨twoRules, none, 1, v, some "1"⟩,
        ⟨twoRules ++ [.command (conn 3 0) auth disable], some "1", 1, v', none⟩] : List PageRead),
        ∀ event ∈ read.events, event.CountsRows := by
      simp [twoRules, atStart, Event.CountsRows, Connection.CountsRows, conn]
    exact ⟨_, rfl, rfl, ((pages_lose_and_repeat_nothing Sample.env "org-1" _ _).1 none hfollows hcount).1⟩
  · have hfirst : ∃ v, askAttempts (claimedTwice) none 1 = .ok v ∧
        v.get "next_attempt_cursor" = some (.string "1") := ⟨_, rfl, rfl⟩
    have hlast : ∃ v, askAttempts (claimedTwice ++ [claims 180]) (some "1") 2 = .ok v ∧
        v.get "next_attempt_cursor" = some .null := ⟨_, rfl, rfl⟩
    obtain ⟨v, hv, hnext⟩ := hfirst
    obtain ⟨v', hv', hnull⟩ := hlast
    obtain ⟨_, hid, hasks⟩ := asksAttempts_of_answered hv
    cases hid
    obtain ⟨_, hid, hasks'⟩ := asksAttempts_of_answered hv'
    cases hid
    have hfollows := Follows.more hasks hnext (.last hasks' hnull)
    exact ⟨_, rfl, rfl, ((pages_lose_and_repeat_nothing Sample.env "org-1" _ _).2 (uuid 1 1) hfollows).1⟩

end Sample

end ProjectAutomation
