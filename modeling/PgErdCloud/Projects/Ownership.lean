/-
  Every project has one owner, its creator. A project becomes visible together with the
  membership of its creator; from then on the role of the creator is guarded by what an
  invitation reads before it writes. Between the two the membership may change, but not to or
  from owner: the row that an invitation is about to write is never the creator's.

  `sole_owner_is_creator` is about every run: the owners of a project that is there are its
  creator alone.
-/
import PgErdCloud.Projects.Members

namespace PgErdCloud.Projects

open Lib Lib.PyStr Api

/-! ## The invariant -/

/-- The owner of each project is its creator, and members are members of a project. -/
structure Owned (tables : Tables) : Prop where
  owner_iff : ∀ project space, tables.projects.get? project = some space → ∀ user,
    tables.members.get? (project, user) = some .owner ↔ user = space.createdByUserUuid
  project_of_member : ∀ project user role,
    tables.members.get? (project, user) = some role → project ∈ tables.projects.keys

/-- The project is there, and the user is not its creator. -/
def NotCreator (tables : Tables) (project user : Uuid) : Prop :=
  ∃ space, tables.projects.get? project = some space ∧ user ≠ space.createdByUserUuid

/-- What a request relies on at its program point. -/
def Relies (tables : Tables) : Pc → Prop
  | .resolving project _ _ | .inserting project _ _ | .guarding project _ _ =>
      project ∈ tables.projects.keys
  | .upserting project invited _ | .upserted project invited _ =>
      NotCreator tables project invited.userAccountUuid
  | .creating _ _ | .flushed _ _ | .authorizing _ _ _ | .finished _ => True

/-- What every reachable state keeps: owners are right, each request relies on rows that are there,
    and uuids of projects that are being created are free. -/
structure Inv (s : State) : Prop where
  owned : Owned s.tables
  relies : ∀ r pc, s.requests.get? r = some pc → Relies s.tables pc
  reserved : Reserved s.requests Pc.pendingProject s.tables.projects

/-! ## What changes keep -/

/-- Projects stay as they are. -/
def Extends (tables tables' : Tables) : Prop :=
  ∀ project space, tables.projects.get? project = some space →
    tables'.projects.get? project = some space

theorem Extends.mem_keys {tables tables' : Tables} (h : Extends tables tables') {project : Uuid}
    (hm : project ∈ tables.projects.keys) : project ∈ tables'.projects.keys := by
  obtain ⟨space, hspace⟩ := Dict.mem_keys_iff.mp hm
  exact Dict.mem_keys_iff.mpr ⟨space, h _ _ hspace⟩

theorem Relies.extends {tables tables' : Tables} (h : Extends tables tables') {pc : Pc}
    (hr : Relies tables pc) : Relies tables' pc := by
  cases pc with
  | resolving | inserting | guarding => exact h.mem_keys hr
  | upserting | upserted =>
      obtain ⟨space, hspace, hne⟩ := hr
      exact ⟨space, h _ _ hspace, hne⟩
  | _ => trivial

/-- A request moves on, and the others see the same tables or more. -/
theorem relies_goto {requests : Dict Nat Pc} {r : Nat} {pc : Pc} {tables tables' : Tables}
    (h : ∀ r pc, requests.get? r = some pc → Relies tables pc)
    (hextends : Extends tables tables') (hrelies : Relies tables' pc) :
    ∀ r' pc', (requests.set r pc).get? r' = some pc' → Relies tables' pc' := by
  intro r' pc' hget
  rw [Dict.get?_set] at hget
  split_ifs at hget
  · obtain rfl := Option.some.inj hget
    exact hrelies
  · exact (h r' pc' hget).extends hextends

theorem Extends.refl (tables : Tables) : Extends tables tables := fun _ _ h => h

/-- A request moves on without a new project. -/
theorem Inv.goto {s : State} (h : Inv s) (r : Nat) {pc : Pc} (hrelies : Relies s.tables pc)
    (hpending : pc.pendingProject = none) : Inv (s.goto r pc) where
  owned := h.owned
  relies := relies_goto h.relies (.refl _) hrelies
  reserved := h.reserved.release r hpending

theorem Inv.fail {s : State} (h : Inv s) (r : Nat) (error : HttpError) : Inv (s.fail r error) :=
  h.goto r trivial rfl

/-- A request inserts a project. -/
theorem Inv.insert {s : State} (h : Inv s) {r : Nat} {project : Uuid} (space : ProjectSpace)
    (hblocked : blocked s.requests r (fun pc => pc.pendingProject = some project) = false)
    (hfresh : project ∉ s.tables.projects.keys) : Inv (s.goto r (.flushed project space)) where
  owned := h.owned
  relies := relies_goto h.relies (.refl _) trivial
  reserved := h.reserved.reserve rfl hblocked hfresh

/-! ## Commits -/

/-- The tables after `create_project` has committed. -/
def created (tables : Tables) (project : Uuid) (space : ProjectSpace) : Tables :=
  { tables with
    projects := tables.projects.set project space
    members := tables.members.set (project, space.createdByUserUuid) .owner }

/-- The tables after `add_project_member` has committed. -/
def added (tables : Tables) (project : Uuid) (invited : Invited) (role : InviteRole) : Tables :=
  { tables with
    users := if invited.isNew then tables.users.set invited.subject invited.userAccountUuid
      else tables.users
    members := tables.members.set (project, invited.userAccountUuid) role.role }

theorem extends_created {tables : Tables} {project : Uuid} (space : ProjectSpace)
    (hfresh : project ∉ tables.projects.keys) : Extends tables (created tables project space) := by
  intro other otherSpace hget
  have hne : other ≠ project := by
    rintro rfl
    exact hfresh (Dict.mem_keys_iff.mpr ⟨_, hget⟩)
  exact (Dict.get?_set_ne _ _ hne).trans hget

theorem Owned.created {tables : Tables} (h : Owned tables) {project : Uuid}
    (space : ProjectSpace) (hfresh : project ∉ tables.projects.keys) :
    Owned (created tables project space) where
  owner_iff := by
    intro other otherSpace hget user
    show (tables.members.set _ _).get? _ = _ ↔ _
    rw [Dict.get?_set]
    by_cases hother : other = project
    · subst hother
      obtain rfl : space = otherSpace := by
        have hset : (tables.projects.set other space).get? other = some otherSpace := hget
        rw [Dict.get?_set_self] at hset
        exact Option.some.inj hset
      by_cases huser : user = space.createdByUserUuid
      · simp [huser]
      · -- nobody was a member of the project before
        rw [if_neg fun he => huser (Prod.mk.inj he).2]
        refine iff_of_false (fun hm => hfresh ?_) huser
        exact h.project_of_member _ _ _ hm
    · rw [if_neg fun he => hother (Prod.mk.inj he).1]
      have hold : tables.projects.get? other = some otherSpace :=
        (Dict.get?_set_ne _ _ hother).symm.trans hget
      exact h.owner_iff other otherSpace hold user
  project_of_member := by
    intro other user role hget
    have hset : (tables.members.set (project, space.createdByUserUuid) .owner).get?
        (other, user) = some role := hget
    rw [Dict.get?_set] at hset
    split_ifs at hset with he
    · rw [(Prod.mk.inj he).1]
      exact Dict.mem_keys_iff.mpr ⟨space, Dict.get?_set_self _ _ _⟩
    · exact (extends_created space hfresh).mem_keys (h.project_of_member _ _ _ hset)

theorem Owned.added {tables : Tables} (h : Owned tables) {project : Uuid} {invited : Invited}
    (role : InviteRole) (hnot : NotCreator tables project invited.userAccountUuid) :
    Owned (added tables project invited role) where
  owner_iff := by
    intro other otherSpace hget user
    show (tables.members.set _ _).get? _ = _ ↔ _
    rw [Dict.get?_set, ← h.owner_iff other otherSpace hget user]
    split_ifs with he
    · obtain ⟨rfl, rfl⟩ := Prod.mk.inj he
      obtain ⟨space, hspace, hne⟩ := hnot
      -- an invited user never has the role owner, before or after
      refine iff_of_false ?_ fun howner => hne ((h.owner_iff _ space hspace _).mp howner)
      cases role with
      | viewer => simp [InviteRole.role]
      | editor => simp [InviteRole.role]
    · exact Iff.rfl
  project_of_member := by
    intro other user otherRole hget
    have hset : (tables.members.set (project, invited.userAccountUuid) role.role).get?
        (other, user) = some otherRole := hget
    rw [Dict.get?_set] at hset
    split_ifs at hset with he
    · obtain ⟨space, hspace, -⟩ := hnot
      rw [(Prod.mk.inj he).1]
      exact Dict.mem_keys_iff.mpr ⟨space, hspace⟩
    · exact h.project_of_member _ _ _ hset

/-- A commit finishes the request; the projects are those from before, and its own. -/
theorem Inv.commit {s : State} (h : Inv s) {r : Nat} {pc : Pc} {tables : Tables}
    (result : Except HttpError Response) (hget : s.requests.get? r = some pc)
    (howned : Owned tables) (hextends : Extends s.tables tables)
    (hkeys : ∀ project ∈ tables.projects.keys,
      project ∈ s.tables.projects.keys ∨ pc.pendingProject = some project) :
    Inv ({ s with tables := tables }.goto r (.finished result)) where
  owned := howned
  relies := relies_goto h.relies hextends trivial
  reserved := h.reserved.commit hget rfl hkeys

/-! ## Steps -/

theorem inv_statement {s t : State} {r : Nat} {fresh : Uuid} {pc : Pc} (h : Inv s)
    (hget : s.requests.get? r = some pc) (hstep : statement s r fresh pc = some t) : Inv t := by
  have hrelies := h.relies r pc hget
  cases pc with
  | creating user projectName =>
      simp only [statement] at hstep
      split_ifs at hstep with hblocked herror
      · obtain rfl := Option.some.inj hstep
        exact h.fail r _
      · obtain rfl := Option.some.inj hstep
        exact h.insert _ (by simpa using hblocked) (not_or.mp herror).1
  | flushed project space =>
      simp only [statement] at hstep
      have hfresh : project ∉ s.tables.projects.keys := h.reserved.free r _ project hget rfl
      split_ifs at hstep
      · obtain rfl := Option.some.inj hstep
        exact h.fail r _
      · obtain rfl := Option.some.inj hstep
        refine h.commit _ hget (h.owned.created space hfresh) (extends_created space hfresh) ?_
        intro other hm
        have hset : other ∈ (s.tables.projects.set project space).keys := hm
        rw [Dict.keys_set, if_neg hfresh, List.mem_append, List.mem_singleton] at hset
        exact hset.imp_right fun he => congrArg some he.symm
  | authorizing project user body =>
      simp only [statement] at hstep
      split_ifs at hstep with howner hsubject
      · obtain rfl := Option.some.inj hstep
        exact h.fail r _
      · obtain rfl := Option.some.inj hstep
        exact h.fail r _
      · obtain rfl := Option.some.inj hstep
        exact h.goto r (h.owned.project_of_member _ _ _ (not_not.mp howner)) rfl
  | resolving project subject role =>
      simp only [statement] at hstep
      split at hstep
      · obtain rfl := Option.some.inj hstep
        exact h.goto r hrelies rfl
      · obtain rfl := Option.some.inj hstep
        exact h.goto r hrelies rfl
  | inserting project subject role =>
      simp only [statement] at hstep
      split_ifs at hstep
      · obtain rfl := Option.some.inj hstep
        exact h.fail r _
      · obtain rfl := Option.some.inj hstep
        exact h.goto r hrelies rfl
  | guarding project invited role =>
      simp only [statement] at hstep
      split_ifs at hstep with howner
      · obtain rfl := Option.some.inj hstep
        exact h.fail r _
      · obtain rfl := Option.some.inj hstep
        obtain ⟨space, hspace⟩ := Dict.mem_keys_iff.mp hrelies
        refine h.goto r ⟨space, hspace, fun he => howner ?_⟩ rfl
        exact (h.owned.owner_iff project space hspace _).mpr he
  | upserting project invited role =>
      simp only [statement] at hstep
      split_ifs at hstep
      · obtain rfl := Option.some.inj hstep
        exact h.fail r _
      · obtain rfl := Option.some.inj hstep
        exact h.goto r hrelies rfl
  | upserted project invited role =>
      simp only [statement] at hstep
      obtain rfl := Option.some.inj hstep
      exact h.commit _ hget (h.owned.added role hrelies) (fun _ _ hold => hold)
        fun _ hm => .inl hm
  | finished result => exact absurd hstep (by simp [statement])

/-- **Every step keeps the owners.** -/
theorem inv_step (s : State) (a : Action) (t : State) (h : Inv s) (hstep : step s a = some t) :
    Inv t := by
  cases a with
  | createProject r user projectName =>
      simp only [step] at hstep
      split_ifs at hstep
      obtain rfl := Option.some.inj hstep
      exact h.goto r trivial rfl
  | addProjectMember r project user body =>
      simp only [step] at hstep
      split_ifs at hstep
      obtain rfl := Option.some.inj hstep
      exact h.goto r trivial rfl
  | next r fresh =>
      obtain ⟨pc, hget, hpc⟩ := Option.bind_eq_some_iff.mp hstep
      exact inv_statement h hget hpc
  | abort r =>
      simp only [step] at hstep
      split at hstep
      · exact absurd hstep (by simp)
      · exact absurd hstep (by simp)
      · obtain rfl := Option.some.inj hstep
        exact h.fail r _

theorem inv_initial (users : Dict Str Uuid) : Inv (State.initial users) where
  owned := ⟨fun _ _ h => absurd h (by simp [State.initial]),
    fun _ _ _ h => absurd h (by simp [State.initial])⟩
  relies := fun _ _ h => absurd h (by simp [State.initial])
  reserved := reserved_empty

/-- **A project has one owner, its creator,** whatever requests run in whatever order. -/
theorem sole_owner_is_creator {users : Dict Str Uuid} {actions : List Action} {s : State}
    (h : run step (State.initial users) actions = some s) {project : Uuid} {space : ProjectSpace}
    (hproject : s.tables.projects.get? project = some space) (user : Uuid) :
    s.tables.members.get? (project, user) = some .owner ↔ user = space.createdByUserUuid :=
  (run_invariant inv_step (inv_initial users) h).owned.owner_iff project space hproject user

/-- A project of a user, to which another one is invited twice at the same time, and the owner
    once. -/
def invitations : List Action :=
  [.createProject 0 7 "erd".toList, .next 0 100, .next 0 0,
    .addProjectMember 1 100 7 ⟨"bob".toList, .editor⟩,
    .addProjectMember 2 100 7 ⟨"bob".toList, .viewer⟩,
    .addProjectMember 3 100 7 ⟨"alice".toList, .viewer⟩,
    .next 1 0, .next 2 0, .next 3 0, .next 1 0, .next 2 0, .next 3 0, .next 1 0, .next 2 0,
    .next 3 0, .next 1 0, .next 1 0, .next 2 0, .next 2 0]

/-- The users before these. -/
def aliceAndBob : Dict Str Uuid := ⟨[("alice".toList, 7), ("bob".toList, 8)], by decide⟩

theorem sole_owner_is_creator_at_invitations :
    ∃ s, run step (State.initial aliceAndBob) invitations = some s ∧
      (s.tables.members.get? (100, 7) = some .owner ↔ 7 = 7) ∧
      s.tables.members.get? (100, 8) = some .viewer := by
  obtain ⟨s, hrun, hproject, hbob⟩ : ∃ s,
      run step (State.initial aliceAndBob) invitations = some s ∧
        s.tables.projects.get? 100 = some ⟨"erd".toList, 7⟩ ∧
        s.tables.members.get? (100, 8) = some .viewer := ⟨_, rfl, rfl, rfl⟩
  exact ⟨s, hrun, sole_owner_is_creator hrun hproject 7, hbob⟩

end PgErdCloud.Projects
