import ProjectAutomation.Spec.Validate
import ProjectAutomation.Spec.Sample

/-!
# What an action does

A mutation does all its action says when it carries what the action sets, and every
other field as it was read (`DoesAllItSays`). The validator admits for each kind only the
data its mutation has a field for (`validAction_sets`), with one exception: the labels of
an `update_issue` are sent only under `replace_labels`.

* `accepted_action_does_all_it_says`: an accepted action does all it says, exactly when it
  does not name labels for nothing.
* `labels_named_for_nothing`: an accepted action whose labels are not sent.
-/

namespace ProjectAutomation

/-! ## Fields -/

/-- A field a mutation can carry. -/
inductive Field where
  | teamId | workflowStateId | title | description | priority | labelIds | cycleId | milestoneId
  | parentIssueId | commentBody | projectName | projectSummary | leadTeamId | teamIds | statusId
  | startDate | targetDate
deriving DecidableEq

/-- A list of ids, as JSON. -/
def idsValue (ids : List String) : Value := .array (ids.map .string)

/-- The data an action sets. `replace_labels` sets the labels, to none when it names none. -/
def Action.sets (a : Action) : Field → Option Value
  | .teamId => a.teamId.map .string
  | .workflowStateId => a.workflowStateId.map .string
  | .title => a.title.map .string
  | .description => a.description.map .string
  | .priority => a.priority.map (fun p => .string p.name)
  | .labelIds => if a.replaceLabels = true ∨ a.labelIds ≠ [] then some (idsValue a.labelIds) else none
  | .commentBody => a.commentBody.map .string
  | .projectName => a.projectName.map .string
  | .projectSummary => a.projectSummary.map .string
  | .statusId => a.statusId.map .string
  | .cycleId | .milestoneId | .parentIssueId | .leadTeamId | .teamIds | .startDate | .targetDate => none

/-- The mutable fields of what was read. -/
def Snapshot.field : Snapshot → Field → Option Value
  | .issue i, .teamId => some (.string i.teamId)
  | .issue i, .workflowStateId => some (.string i.workflowStateId)
  | .issue i, .title => some (.string i.title)
  | .issue i, .description => some (.ofOption .string i.description)
  | .issue i, .priority => some (.string i.priority.name)
  | .issue i, .labelIds => some (idsValue i.labelIds)
  | .issue i, .cycleId => some (.ofOption .string i.cycleId)
  | .issue i, .milestoneId => some (.ofOption .string i.milestoneId)
  | .issue i, .parentIssueId => some (.ofOption .string i.parentIssueId)
  | .project p, .projectName => some (.string p.name)
  | .project p, .projectSummary => some (.ofOption .string p.summary)
  | .project p, .leadTeamId => some (.ofOption .string p.leadTeamId)
  | .project p, .teamIds => some (idsValue p.teamIds)
  | .project p, .statusId => some (.string p.statusId)
  | .project p, .milestoneId => some (.ofOption .string p.milestoneId)
  | .project p, .startDate => some (.ofOption .string p.startDate)
  | .project p, .targetDate => some (.ofOption .string p.targetDate)
  | _, _ => none

/-- The fields of a request. -/
def Mutation.carries : Mutation → Field → Option Value
  | .moveIssue _ _ _ teamId _ _, .teamId => some (.string teamId)
  | .moveIssue _ _ _ _ workflowStateId _, .workflowStateId => some (.string workflowStateId)
  | .updateIssue _ _ _ title _ _ _ _ _ _ _ _, .title => some (.string title)
  | .updateIssue _ _ _ _ description _ _ _ _ _ _ _, .description => some (.ofOption .string description)
  | .updateIssue _ _ _ _ _ priority _ _ _ _ _ _, .priority => some (.string priority.name)
  | .updateIssue _ _ _ _ _ _ workflowStateId _ _ _ _ _, .workflowStateId => some (.string workflowStateId)
  | .updateIssue _ _ _ _ _ _ _ cycleId _ _ _ _, .cycleId => some (.ofOption .string cycleId)
  | .updateIssue _ _ _ _ _ _ _ _ milestoneId _ _ _, .milestoneId => some (.ofOption .string milestoneId)
  | .updateIssue _ _ _ _ _ _ _ _ _ parentIssueId _ _, .parentIssueId => some (.ofOption .string parentIssueId)
  | .updateIssue _ _ _ _ _ _ _ _ _ _ labelIds _, .labelIds => some (idsValue labelIds)
  | .updateProject _ _ _ name _ _ _ _ _ _ _ _, .projectName => some (.string name)
  | .updateProject _ _ _ _ summary _ _ _ _ _ _ _, .projectSummary => some (.ofOption .string summary)
  | .updateProject _ _ _ _ _ leadTeamId _ _ _ _ _ _, .leadTeamId => some (.ofOption .string leadTeamId)
  | .updateProject _ _ _ _ _ _ teamIds _ _ _ _ _, .teamIds => some (idsValue teamIds)
  | .updateProject _ _ _ _ _ _ _ statusId _ _ _ _, .statusId => some (.string statusId)
  | .updateProject _ _ _ _ _ _ _ _ milestoneId _ _ _, .milestoneId => some (.ofOption .string milestoneId)
  | .updateProject _ _ _ _ _ _ _ _ _ startDate _ _, .startDate => some (.ofOption .string startDate)
  | .updateProject _ _ _ _ _ _ _ _ _ _ targetDate _, .targetDate => some (.ofOption .string targetDate)
  | .addComment _ _ _ body _, .commentBody => some (.string body)
  | _, _ => none

/-- A field is sent as it is set, and where it is not set, as it was read. -/
structure Carried {α : Type} (set read sent : Option α) : Prop where
  sent_set : ∀ v, set = some v → sent = some v
  sent_read : ∀ v, set = none → sent = some v → read = some v

section Carried

variable {α β : Type} {set read sent : Option α}

/-- A request without the field has nothing to say. -/
theorem carried_unset (h : set = none) : Carried set read none :=
  ⟨(fun v hv => by rw [h] at hv; cases hv), fun v _ hs => by cases hs⟩

theorem carried_read (h : set = none) : Carried set read read :=
  ⟨(fun v hv => by rw [h] at hv; cases hv), fun _ _ hs => hs⟩

theorem carried_set (h : set ≠ none) : Carried set read set :=
  ⟨fun _ hv => hv, fun _ hn _ => absurd hn h⟩

theorem carried_getD (f : β → α) (set : Option β) (read : β) :
    Carried (set.map f) (some (f read)) (some (f (set.getD read))) := by
  cases set with
  | none => exact carried_read rfl
  | some v => exact carried_set (by simp)

theorem carried_or (set read : Option String) :
    Carried (set.map Value.string) (some (.ofOption .string read)) (some (.ofOption .string (set.or read))) := by
  cases set with
  | none => exact carried_read rfl
  | some v => exact carried_set (by simp)

end Carried

/-- The request names what was read, at the revision that was read; a comment, for which
nothing is read, the target. -/
def NamesTarget (payload : Value) (a : Action) : Snapshot → Mutation → Prop
  | .issue i, .moveIssue _ issueId revision _ _ _ => issueId = i.issueId ∧ revision = i.revision
  | .issue i, .updateIssue _ issueId revision _ _ _ _ _ _ _ _ _ => issueId = i.issueId ∧ revision = i.revision
  | .project p, .updateProject _ projectId revision _ _ _ _ _ _ _ _ _ =>
    projectId = p.projectId ∧ revision = p.revision
  | .nothing, .addComment _ issueId _ _ _ => issueTarget payload a = some issueId
  | _, _ => False

/-- The request aims at what was read, in the organization it was read in. -/
def AimedAt (payload : Value) (a : Action) (read : Snapshot) (request : Mutation) : Prop :=
  payload.getStr "organization_id" = some request.organizationId ∧ NamesTarget payload a read request

/-- **The request does all its action says, and nothing else.** -/
structure DoesAllItSays (payload : Value) (a : Action) (read : Snapshot) (request : Mutation) : Prop where
  aimed : AimedAt payload a read request
  fields : ∀ f, Carried (a.sets f) (read.field f) (request.carries f)

/-! ## The validator -/

/-- The fields of the mutation that an action of the kind can set. -/
def ActionKind.fields : ActionKind → List Field
  | .assignIssueToTeam | .moveIssue => [.teamId, .workflowStateId]
  | .updateIssue => [.title, .description, .priority, .labelIds]
  | .addComment => [.commentBody]
  | .updateProject => [.projectName, .projectSummary, .statusId]

theorem sets_labelIds_none {a : Action} (hr : a.replaceLabels = false) (hl : a.labelIds = []) :
    a.sets .labelIds = none := by
  simp [Action.sets, hr, hl]

/-- **An accepted action sets only what its mutation can carry.** -/
theorem validAction_sets {a : Action} (hv : validAction a = true) {f : Field} (hf : f ∉ a.kind.fields) :
    a.sets f = none := by
  unfold validAction at hv
  simp only at hv
  split at hv
  · cases hv
  cases hk : a.kind with
  | assignIssueToTeam | moveIssue | updateIssue | addComment | updateProject =>
    rw [hk] at hf
    simp only [hk, issueUpdateFieldsEmpty, projectUpdateFieldsEmpty, Bool.and_eq_true, Option.isNone_iff_eq_none,
      Bool.not_eq_true', List.isEmpty_iff] at hv
    cases f <;> simp_all [Action.sets, ActionKind.fields]

/-- A comment that is accepted has a body. -/
theorem validAction_commentBody {a : Action} (hv : validAction a = true) (hk : a.kind = .addComment) :
    ∃ body, a.commentBody = some body := by
  unfold validAction at hv
  simp only at hv
  split at hv
  · cases hv
  · simp only [hk, Bool.and_eq_true] at hv
    exact Option.isSome_iff_exists.1 hv.1.1.1.1.1.1.1.1.1

/-! ## The executor -/

/-- What the target of an action is found to be: the answer of the read call, or, for a comment, nothing. -/
inductive Found (p : Providers) (payload : Value) (a : Action) : Snapshot → Prop
  | issue {organizationId issueId : String} {issue : Issue} :
      payload.getStr "organization_id" = some organizationId →
      a.kind = .assignIssueToTeam ∨ a.kind = .moveIssue ∨ a.kind = .updateIssue →
      issueTarget payload a = some issueId → p.getIssue organizationId issueId = .ok issue →
      Found p payload a (.issue issue)
  | project {organizationId projectId : String} {project : Project} :
      payload.getStr "organization_id" = some organizationId → a.kind = .updateProject →
      projectTarget payload a = some projectId → p.getProject organizationId projectId = .ok project →
      Found p payload a (.project project)
  | nothing {organizationId issueId : String} :
      payload.getStr "organization_id" = some organizationId → a.kind = .addComment →
      issueTarget payload a = some issueId → Found p payload a .nothing

/-- The mutations among the calls, each with what was read for it. -/
def mutations (calls : List Call) : List (Snapshot × Mutation) :=
  calls.filterMap (fun
    | .mutate read request => some (read, request)
    | .getIssue _ _ | .getProject _ _ => none)

/-- The labels the action names are not sent, and are not those the issue has. -/
def LabelsLost (a : Action) (read : Snapshot) : Prop :=
  a.kind = .updateIssue ∧ a.replaceLabels = false ∧ a.labelIds ≠ [] ∧
    read.field .labelIds ≠ some (idsValue a.labelIds)

theorem moveIssue_does {payload : Value} {a : Action} {organizationId key : String} (i : Issue)
    (horg : payload.getStr "organization_id" = some organizationId)
    (hunset : ∀ f ∉ [Field.teamId, .workflowStateId], a.sets f = none) :
    DoesAllItSays payload a (.issue i) (moveIssueRequest organizationId key a i) := by
  refine ⟨⟨horg, rfl, rfl⟩, fun f => ?_⟩
  cases f with
  | teamId => exact carried_getD _ _ _
  | workflowStateId => exact carried_getD _ _ _
  | _ => exact carried_unset (hunset _ (by decide))

theorem updateProject_does {payload : Value} {a : Action} {organizationId key : String} (p : Project)
    (horg : payload.getStr "organization_id" = some organizationId)
    (hunset : ∀ f ∉ [Field.projectName, .projectSummary, .statusId], a.sets f = none) :
    DoesAllItSays payload a (.project p) (updateProjectRequest organizationId key a p) := by
  refine ⟨⟨horg, rfl, rfl⟩, fun f => ?_⟩
  cases f with
  | projectName => exact carried_getD _ _ _
  | projectSummary => exact carried_or _ _
  | statusId => exact carried_getD _ _ _
  | leadTeamId | teamIds | milestoneId | startDate | targetDate => exact carried_read rfl
  | _ => exact carried_unset (hunset _ (by decide))

theorem addComment_does {payload : Value} {a : Action} {organizationId key issueId body : String}
    {executionId : Uuid} {index : ℕ} (horg : payload.getStr "organization_id" = some organizationId)
    (htarget : issueTarget payload a = some issueId)
    (hbody : a.commentBody = some body) (hunset : ∀ f ∉ [Field.commentBody], a.sets f = none) :
    DoesAllItSays payload a .nothing (addCommentRequest organizationId key issueId body executionId index) := by
  refine ⟨⟨horg, htarget⟩, fun f => ?_⟩
  cases f with
  | commentBody =>
    have hset : a.sets .commentBody = some (.string body) := by rw [Action.sets, hbody]; rfl
    rw [hset]
    exact carried_set (by simp)
  | _ => exact carried_unset (hunset _ (by decide))

/-- The labels of an `update_issue` are carried unless they are lost. -/
theorem updateIssue_labels {a : Action} (organizationId key : String) {i : Issue} (hk : a.kind = .updateIssue) :
    Carried (a.sets .labelIds) ((Snapshot.issue i).field .labelIds)
      ((updateIssueRequest organizationId key a i).carries .labelIds) ↔ ¬ LabelsLost a (.issue i) := by
  have hsent : (updateIssueRequest organizationId key a i).carries .labelIds =
      some (idsValue (if a.replaceLabels = true then a.labelIds else i.labelIds)) := rfl
  by_cases hr : a.replaceLabels = true
  · -- the labels are replaced, be it by none
    have hset : a.sets .labelIds = some (idsValue a.labelIds) := if_pos (Or.inl hr)
    rw [hsent, if_pos hr, hset]
    refine iff_of_true (carried_set (by simp)) fun hlost => ?_
    rw [hlost.2.1] at hr
    cases hr
  by_cases hl : a.labelIds = []
  · have hset : a.sets .labelIds = none := sets_labelIds_none (by simpa using hr) hl
    rw [hsent, if_neg hr, hset]
    exact iff_of_true (carried_read rfl) fun hlost => hlost.2.2.1 hl
  · -- labels are named, and those of the issue are sent
    have hset : a.sets .labelIds = some (idsValue a.labelIds) := if_pos (Or.inr hl)
    have hread : (Snapshot.issue i).field .labelIds = some (idsValue i.labelIds) := rfl
    rw [hsent, if_neg hr, hset]
    constructor
    · exact fun hc hlost => hlost.2.2.2 (hc.sent_set _ rfl)
    · intro hkept
      have hsame : (Snapshot.issue i).field .labelIds = some (idsValue a.labelIds) := by
        by_contra hne
        exact hkept ⟨hk, by simpa using hr, hl, hne⟩
      rw [hread] at hsame ⊢
      rw [hsame]
      exact carried_set (by simp)

theorem updateIssue_does {payload : Value} {a : Action} {organizationId key : String} (i : Issue)
    (horg : payload.getStr "organization_id" = some organizationId) (hk : a.kind = .updateIssue)
    (hunset : ∀ f ∉ [Field.title, .description, .priority, .labelIds], a.sets f = none) :
    DoesAllItSays payload a (.issue i) (updateIssueRequest organizationId key a i) ↔
      ¬ LabelsLost a (.issue i) := by
  rw [← updateIssue_labels organizationId key hk]
  refine ⟨fun h => h.fields .labelIds, fun hlabels => ⟨⟨horg, rfl, rfl⟩, fun f => ?_⟩⟩
  cases f with
  | labelIds => exact hlabels
  | title => exact carried_getD _ _ _
  | description => exact carried_or _ _
  | priority => exact carried_getD (fun p : Priority => Value.string p.name) _ _
  | workflowStateId => exact (hunset .workflowStateId (by decide)) ▸ carried_read rfl
  | cycleId | milestoneId | parentIssueId => exact carried_read rfl
  | _ => exact carried_unset (hunset _ (by decide))

/-- **An accepted action does all it says and nothing else**, unless it names labels for nothing. Whatever
entity its target is found to be, one mutation is sent. -/
theorem accepted_action_does_all_it_says {a : Action} {p : Providers} {payload : Value} {read : Snapshot}
    (hv : validAction a = true) (hfound : Found p payload a read) (executionId : Uuid) (index : ℕ)
    (key : String) :
    ∃ request, mutations (executeAction p executionId index key payload a).1 = [(read, request)] ∧
      (DoesAllItSays payload a read request ↔ ¬ LabelsLost a read) := by
  have hunset : ∀ {kind}, a.kind = kind → ∀ f ∉ kind.fields, a.sets f = none := by
    rintro kind rfl f hf
    exact validAction_sets hv hf
  have hkept : ∀ {kind read}, a.kind = kind → kind ≠ .updateIssue → ¬ LabelsLost a read := by
    rintro kind read rfl hne hlost
    exact hne hlost.1
  cases hfound with
  | @issue organizationId issueId issue horg hkind htarget hget =>
    rcases hkind with hk | hk | hk
    · refine ⟨moveIssueRequest organizationId key a issue, ?_,
        iff_of_true (moveIssue_does _ horg (hunset hk)) (hkept hk (by decide))⟩
      simp [executeAction, horg, hk, htarget, onIssue, hget, mutations]
    · refine ⟨moveIssueRequest organizationId key a issue, ?_,
        iff_of_true (moveIssue_does _ horg (hunset hk)) (hkept hk (by decide))⟩
      simp [executeAction, horg, hk, htarget, onIssue, hget, mutations]
    · refine ⟨updateIssueRequest organizationId key a issue, ?_, updateIssue_does _ horg hk (hunset hk)⟩
      simp [executeAction, horg, hk, htarget, onIssue, hget, mutations]
  | @project organizationId projectId project horg hk htarget hget =>
    refine ⟨updateProjectRequest organizationId key a project, ?_,
      iff_of_true (updateProject_does _ horg (hunset hk)) (hkept hk (by decide))⟩
    simp [executeAction, horg, hk, htarget, onProject, hget, mutations]
  | @nothing organizationId issueId horg hk htarget =>
    obtain ⟨body, hbody⟩ := validAction_commentBody hv hk
    refine ⟨addCommentRequest organizationId key issueId body executionId index, ?_,
      iff_of_true (addComment_does horg htarget hbody (hunset hk)) (hkept hk (by decide))⟩
    simp [executeAction, horg, hk, htarget, hbody, mutations]

section Sample

open Sample

/-- `update_issue`, with a title and a label. -/
def retitle (replaceLabels : Bool) : Action :=
  ⟨none, none, some "issue-1", .updateIssue, ["bug"], none, none, none, none, replaceLabels, none, none,
    some "Crash on save", none⟩

/-- The issue `served` has. -/
def crash : Snapshot := .issue ⟨none, none, "issue-1", [], none, none, .none, "1", "team-1", "Crash", "todo"⟩

theorem found_crash (replaceLabels : Bool) : Found served created.toValue (retitle replaceLabels) crash :=
  .issue rfl (Or.inr (Or.inr rfl)) rfl rfl

/-- A retitle that replaces the labels. -/
theorem retitle_does_all_it_says :
    ∃ request, mutations (executeAction served (uuid 1 1) 0 "key-1" created.toValue (retitle true)).1 =
        [(crash, request)] ∧
      (DoesAllItSays created.toValue (retitle true) crash request ↔ ¬ LabelsLost (retitle true) crash) :=
  accepted_action_does_all_it_says (by decide) (found_crash true) (uuid 1 1) 0 "key-1"

/-- **An accepted action whose label is not sent.** -/
theorem labels_named_for_nothing :
    let a := retitle false
    validAction a = true ∧ Found served created.toValue a crash ∧
    ∃ request, mutations (executeAction served (uuid 1 1) 0 "key-1" created.toValue a).1 = [(crash, request)] ∧
      a.sets .labelIds = some (idsValue ["bug"]) ∧ request.carries .labelIds = some (idsValue []) ∧
      ¬ DoesAllItSays created.toValue a crash request := by
  refine ⟨by decide, found_crash false, _, rfl, rfl, rfl, fun h => ?_⟩
  have hsent : some (idsValue []) = some (idsValue ["bug"]) := (h.fields .labelIds).sent_set (idsValue ["bug"]) rfl
  simp [idsValue] at hsent

end Sample

end ProjectAutomation
