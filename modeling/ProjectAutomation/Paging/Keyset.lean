import Mathlib.Data.List.Nodup
import Mathlib.Data.Set.Basic
import Mathlib.Order.Basic

/-!
# Pages behind a key

A listing is read in pages: each holds the first rows behind a cursor, in the order of
their keys, and its own cursor is the key of its last row. The rows may change from one
read to the next. Only the cursor is carried over.

* `page_of_strict`: the first rows of a strictly increasing list are a page.
* `cursorOf_take_succ`: reading one row more than the page holds is enough for its cursor.
* `Walk`: pages read one after the other, each behind the cursor of the one before.
* `Walk.increasing`, `Walk.covers`: a walk repeats no key, and misses none that was there
  at each of its reads.
* `Walk.complete`: when nothing changes, it returns just the rows.
-/

namespace Paging

variable {α κ ι : Type} [LinearOrder κ] {key : α → κ} {S : Set α} {after : κ} {limit : ℕ} {rows : List α}
  {next : Option κ}

/-! ## One page -/

/-- At most `limit` of the rows `S` behind `after`, the first of them, and a cursor when there are more. -/
structure Page (key : α → κ) (S : Set α) (after : κ) (limit : ℕ) (rows : List α) (next : Option κ) : Prop where
  increasing : rows.Pairwise (fun a b => key a < key b)
  selected : ∀ a ∈ rows, a ∈ S ∧ after < key a
  length_le : rows.length ≤ limit
  /-- what the page leaves out lies behind its cursor -/
  complete : ∀ a ∈ S, after < key a → a ∈ rows ∨ ∃ c, next = some c ∧ c < key a
  /-- the cursor is the last key, and there is a row behind it -/
  cursor : ∀ c, next = some c → (∃ a ∈ rows, key a = c) ∧ (∀ a ∈ rows, key a ≤ c) ∧ ∃ a ∈ S, c < key a

namespace Page

/-- A cursor lies behind the one the page was read from. -/
theorem after_lt {c : κ} (h : Page key S after limit rows (some c)) : after < c := by
  obtain ⟨⟨a, ha, hac⟩, -⟩ := h.cursor c rfl
  exact hac ▸ (h.selected a ha).2

/-- **There is a cursor exactly when a row was left out.** -/
theorem isSome_iff (h : Page key S after limit rows next) :
    next.isSome = true ↔ ∃ a ∈ S, after < key a ∧ a ∉ rows := by
  constructor
  · intro hsome
    obtain ⟨c, rfl⟩ := Option.isSome_iff_exists.1 hsome
    obtain ⟨-, hlast, a, ha, hlt⟩ := h.cursor c rfl
    exact ⟨a, ha, h.after_lt.trans hlt, fun hm => absurd (hlast a hm) (not_le_of_gt hlt)⟩
  · rintro ⟨a, ha, hlt, hno⟩
    obtain ⟨c, rfl, -⟩ := (h.complete a ha hlt).resolve_left hno
    rfl

end Page

/-- The last key of the first rows, when they are not all. -/
def cursorOf (key : α → κ) (limit : ℕ) (rows : List α) : Option κ :=
  if limit < rows.length then (rows.take limit).getLast?.map key else none

/-- The last of the first rows, by its index. -/
theorem getLast?_take_eq (hlimit : 0 < limit) : (rows.take limit).getLast? = rows[min limit rows.length - 1]? := by
  rw [List.getLast?_eq_getElem?, List.length_take, List.getElem?_take_of_lt (by omega)]

/-! One row more than the page holds is read, to see whether there are more. -/

theorem lt_length_take_succ : limit < (rows.take (limit + 1)).length ↔ limit < rows.length := by
  rw [List.length_take]
  omega

theorem take_take_succ : (rows.take (limit + 1)).take limit = rows.take limit := by
  rw [List.take_take, Nat.min_eq_left (Nat.le_succ limit)]

omit [LinearOrder κ] in
/-- The extra row does not move the cursor. -/
theorem cursorOf_take_succ : cursorOf key limit (rows.take (limit + 1)) = cursorOf key limit rows := by
  unfold cursorOf
  rw [take_take_succ]
  exact if_congr lt_length_take_succ rfl rfl

/-- **The first rows of a strictly increasing list are a page.** -/
theorem page_of_strict (hlimit : 0 < limit) (hrows : rows.Pairwise (fun a b => key a < key b))
    (hmem : ∀ a, a ∈ rows ↔ a ∈ S ∧ after < key a) :
    Page key S after limit (rows.take limit) (cursorOf key limit rows) := by
  have hsplit : (rows.take limit ++ rows.drop limit).Pairwise (fun a b => key a < key b) := by
    rw [List.take_append_drop]
    exact hrows
  obtain ⟨htake, -, hlt⟩ := List.pairwise_append.1 hsplit
  have hcursor : ∀ c, cursorOf key limit rows = some c →
      limit < rows.length ∧ ∃ before a, rows.take limit = before ++ [a] ∧ key a = c := by
    intro c hc
    unfold cursorOf at hc
    split at hc
    · rename_i hlen
      obtain ⟨a, ha, rfl⟩ := Option.map_eq_some_iff.1 hc
      obtain ⟨before, hbefore⟩ := List.getLast?_eq_some_iff.1 ha
      exact ⟨hlen, before, a, hbefore, rfl⟩
    · cases hc
  refine ⟨htake, fun a ha => (hmem a).1 (List.mem_of_mem_take ha), List.length_take_le limit rows,
    fun a ha hafter => ?_, fun c hc => ?_⟩
  · have hm : a ∈ rows.take limit ++ rows.drop limit := by
      rw [List.take_append_drop]
      exact (hmem a).2 ⟨ha, hafter⟩
    refine (List.mem_append.1 hm).imp_right fun hdrop => ?_
    -- something is left out, so there is a last key and it is smaller
    have hlen : limit < rows.length := by
      by_contra hle
      rw [List.drop_eq_nil_of_le (Nat.le_of_not_lt hle)] at hdrop
      cases hdrop
    have hne : rows.take limit ≠ [] := by
      rw [ne_eq, ← List.length_eq_zero_iff, List.length_take]
      omega
    refine ⟨key ((rows.take limit).getLast hne), ?_, hlt _ (List.getLast_mem hne) a hdrop⟩
    unfold cursorOf
    rw [if_pos hlen, List.getLast?_eq_some_getLast hne]
    rfl
  · obtain ⟨hlen, before, a, hbefore, rfl⟩ := hcursor c hc
    have hlast : a ∈ rows.take limit := by
      rw [hbefore]
      exact List.mem_append_right _ List.mem_cons_self
    refine ⟨⟨a, hlast, rfl⟩, fun b hb => ?_, ?_⟩
    · rw [hbefore, List.mem_append, List.mem_singleton] at hb
      rw [hbefore] at htake
      rcases hb with hb | rfl
      · exact ((List.pairwise_append.1 htake).2.2 b hb a List.mem_cons_self).le
      · exact le_rfl
    · have hnext : rows[limit] ∈ rows.drop limit := List.mem_drop_iff_getElem.2 ⟨0, by omega, rfl⟩
      exact ⟨rows[limit], ((hmem _).1 (List.getElem_mem hlen)).1, hlt a hlast _ hnext⟩

/-! ## A walk -/

/-- What a read found, and what it returned. -/
structure Read (α : Type) where
  rows : Set α
  page : List α

/-- Pages read one after the other, until there is no cursor. -/
inductive Walk (key : α → κ) : κ → List (Read α) → Prop
  | last {S : Set α} {after : κ} {limit : ℕ} {rows : List α} :
      Page key S after limit rows none → Walk key after [⟨S, rows⟩]
  | more {S : Set α} {after c : κ} {limit : ℕ} {rows : List α} {reads : List (Read α)} :
      Page key S after limit rows (some c) → Walk key c reads → Walk key after (⟨S, rows⟩ :: reads)

/-- All that was returned. -/
def returned (reads : List (Read α)) : List α := reads.flatMap Read.page

namespace Walk

variable {reads : List (Read α)}

theorem behind (h : Walk key after reads) : ∀ a ∈ returned reads, after < key a := by
  induction h with
  | last hpage =>
    intro a ha
    exact (hpage.selected a (by simpa [returned] using ha)).2
  | more hpage _ ih =>
    intro a ha
    rcases List.mem_append.1 ha with ha | ha
    · exact (hpage.selected a ha).2
    · exact hpage.after_lt.trans (ih a ha)

/-- **Keys increase strictly**, within a page and from page to page. -/
theorem increasing (h : Walk key after reads) : (returned reads).Pairwise (fun a b => key a < key b) := by
  induction h with
  | last hpage => simpa [returned] using hpage.increasing
  | more hpage hrest ih =>
    refine List.pairwise_append.2 ⟨hpage.increasing, ih, fun a ha b hb => ?_⟩
    exact ((hpage.cursor _ rfl).2.1 a ha).trans_lt (hrest.behind b hb)

/-- **A key that is there at every read is returned.** -/
theorem covers {k : κ} (h : Walk key after reads) (hafter : after < k)
    (hthere : ∀ read ∈ reads, ∃ a ∈ read.rows, key a = k) : ∃ a ∈ returned reads, key a = k := by
  induction h with
  | last hpage =>
    obtain ⟨a, ha, rfl⟩ := hthere _ List.mem_cons_self
    rcases hpage.complete a ha hafter with hm | ⟨c, hc, -⟩
    · exact ⟨a, by simpa [returned] using hm, rfl⟩
    · cases hc
  | more hpage hrest ih =>
    obtain ⟨a, ha, rfl⟩ := hthere _ List.mem_cons_self
    rcases hpage.complete a ha hafter with hm | ⟨c, hc, hlt⟩
    · exact ⟨a, List.mem_append_left _ hm, rfl⟩
    · cases hc
      obtain ⟨b, hb, hkb⟩ := ih hlt fun read hread => hthere read (List.mem_cons_of_mem _ hread)
      exact ⟨b, List.mem_append_right _ hb, hkb⟩

/-- **When nothing changes, a walk returns just the rows.** -/
theorem complete (h : Walk key after reads) (hsame : ∀ read ∈ reads, read.rows = S) (a : α) :
    a ∈ returned reads ↔ a ∈ S ∧ after < key a := by
  constructor
  · intro ha
    refine ⟨?_, h.behind a ha⟩
    obtain ⟨read, hread, hm⟩ := List.mem_flatMap.1 ha
    induction h with
    | last hpage =>
      cases List.mem_singleton.1 hread
      exact hsame _ List.mem_cons_self ▸ (hpage.selected a hm).1
    | more hpage hrest ih =>
      rcases List.mem_cons.1 hread with rfl | hread
      · exact hsame _ List.mem_cons_self ▸ (hpage.selected a hm).1
      · exact ih (fun read hread => hsame read (List.mem_cons_of_mem _ hread))
          (List.mem_flatMap.2 ⟨read, hread, hm⟩) hread
  · rintro ⟨ha, hafter⟩
    induction h with
    | last hpage =>
      rw [← hsame _ List.mem_cons_self] at ha
      rcases hpage.complete a ha hafter with hm | ⟨c, hc, -⟩
      · simpa [returned] using hm
      · cases hc
    | more hpage hrest ih =>
      have hthere := ha
      rw [← hsame _ List.mem_cons_self] at hthere
      rcases hpage.complete a hthere hafter with hm | ⟨c, hc, hlt⟩
      · exact List.mem_append_left _ hm
      · cases hc
        exact List.mem_append_right _ (ih (fun read hread => hsame read (List.mem_cons_of_mem _ hread)) hlt)

/-- What a read returned was there. -/
theorem page_sub (h : Walk key after reads) {read : Read α} (hread : read ∈ reads) :
    ∀ a ∈ read.page, a ∈ read.rows := by
  induction h with
  | last hpage =>
    cases List.mem_singleton.1 hread
    exact fun a ha => (hpage.selected a ha).1
  | more hpage _ ih =>
    rcases List.mem_cons.1 hread with rfl | hread
    · exact fun a ha => (hpage.selected a ha).1
    · exact ih hread

/-! ### Rows known by a name -/

/-- A row's name and its key determine each other, across the reads. -/
def Names (name : α → ι) (key : α → κ) (reads : List (Read α)) : Prop :=
  ∀ read ∈ reads, ∀ a ∈ read.rows, ∀ read' ∈ reads, ∀ b ∈ read'.rows, name a = name b ↔ key a = key b

/-- **A row is returned at most once**, whatever becomes of it between the reads. -/
theorem nodup {name : α → ι} (h : Walk key after reads) (hname : Names name key reads) :
    ((returned reads).map name).Nodup := by
  refine List.pairwise_map.2 (h.increasing.imp_of_mem fun {a b} ha hb hlt heq => ?_)
  obtain ⟨read, hread, ha⟩ := List.mem_flatMap.1 ha
  obtain ⟨read', hread', hb⟩ := List.mem_flatMap.1 hb
  exact hlt.ne ((hname read hread a (h.page_sub hread a ha) read' hread' b (h.page_sub hread' b hb)).1 heq)

/-- **A row that is there at every read is returned exactly once.** -/
theorem once [DecidableEq ι] {name : α → ι} {i : ι} (h : Walk key after reads) (hname : Names name key reads)
    (hfirst : ∀ read ∈ reads, ∀ a ∈ read.rows, after < key a)
    (hthere : ∀ read ∈ reads, ∃ a ∈ read.rows, name a = i) : ((returned reads).map name).count i = 1 := by
  refine List.count_eq_one_of_mem (h.nodup hname) ?_
  obtain ⟨read, hread⟩ : ∃ read, read ∈ reads := by
    cases h with
    | last => exact ⟨_, List.mem_cons_self⟩
    | more => exact ⟨_, List.mem_cons_self⟩
  obtain ⟨a, ha, rfl⟩ := hthere read hread
  obtain ⟨b, hb, hkb⟩ := h.covers (hfirst read hread a ha) fun read' hread' => by
    obtain ⟨c, hc, hnc⟩ := hthere read' hread'
    exact ⟨c, hc, (hname read' hread' c hc read hread a ha).1 hnc⟩
  obtain ⟨read', hread', hm⟩ := List.mem_flatMap.1 hb
  refine List.mem_map.2 ⟨b, hb, ?_⟩
  exact (hname read' hread' b (h.page_sub hread' b hm) read hread a ha).2 hkb

end Walk

end Paging
