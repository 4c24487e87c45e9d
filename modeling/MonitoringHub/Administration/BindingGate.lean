import MonitoringHub.Administration.Directory

/-! The four endpoints that change `role_bindings`, over the cache of resolved access. Creating,
updating and deleting a binding ask the same gate and drop the cached access of the binding's
own principal; a review that revokes goes by the principal of the request. -/

namespace MonitoringHub.Administration
open Lib Lib.KeyedStore Access

inductive Decision
  | retain
  | revoke
  | modify
  deriving DecidableEq

/-- A row of `access_reviews`. -/
structure ReviewRow where
  bindingId : Option ℕ
  principal : Principal
  reviewedBy : ℕ
  decision : Decision
  notes : Option String

structure ReviewRequest where
  principal : Principal
  bindingId : Option ℕ
  decision : Decision
  notes : Option String
  revokeBinding : Bool

/-- For an update: the fields that are sent, with their new values. -/
inductive BindingOp
  | create (row : BindingRow)
  | update (id : ℕ) (expiresAt : Option (Option ℕ)) (reason : Option (Option String))
  | delete (id : ℕ)
  | review (request : ReviewRequest)

/-- The tables, and the cache of resolved access with the time each entry ends. -/
structure Registry where
  dir : Directory
  reviews : List ReviewRow
  cache : List (ℕ × ℕ × ActorAccess)

/-- `_CACHE_TTL_SECONDS` -/
def cacheTtl : ℕ := 60

def BindingRow.amend (expiresAt : Option (Option ℕ)) (reason : Option (Option String))
    (row : BindingRow) : BindingRow :=
  { row with expiresAt := expiresAt.getD row.expiresAt, reason := reason.getD row.reason }

namespace Directory

def binding (s : Directory) (id : ℕ) : Option BindingRow := s.bindings[id]?.join

/-- `UPDATE role_bindings` -/
def amendBinding (s : Directory) (id : ℕ) (expiresAt : Option (Option ℕ))
    (reason : Option (Option String)) : Directory :=
  { s with
    bindings := s.bindings.modify id (Option.map (.amend expiresAt reason))
    bound := by
      intro entry hentry b hb
      obtain ⟨i, hi⟩ := List.mem_iff_getElem?.mp hentry
      rw [List.getElem?_modify, Option.map_eq_map, Option.map_eq_some_iff] at hi
      obtain ⟨old, hold, rfl⟩ := hi
      split at hb
      · obtain ⟨row, hrow, rfl⟩ := Option.map_eq_some_iff.mp hb
        exact s.bound old (List.mem_of_getElem? hold) row hrow
      · exact s.bound old (List.mem_of_getElem? hold) b hb }

/-- `DELETE FROM role_bindings` -/
def deleteBinding (s : Directory) (id : ℕ) : Directory :=
  { s with
    bindings := s.bindings.set id none
    bound := by
      intro entry hentry b hb
      rcases List.mem_or_eq_of_mem_set hentry with hold | rfl
      · exact s.bound entry hold b hb
      · cases hb }

end Directory

namespace Registry

/-- `resolve`, where nothing is cached. -/
def reload (s : Registry) (user : ℕ) (role : String) : ActorAccess × Registry :=
  let access := s.dir.load user role
  (access, { s with cache := write user (s.dir.now + cacheTtl, access) s.cache })

/-- `resolve` -/
def resolve (s : Registry) (user : ℕ) (role : String) : ActorAccess × Registry :=
  match find user s.cache with
  | some (expiry, access) => if s.dir.now < expiry then (access, s) else s.reload user role
  | none => s.reload user role

/-- `invalidate_principal`; for a group everything goes. -/
def invalidatePrincipal (s : Registry) : Principal → Registry
  | .user id => { s with cache := dropWhere (fun user => user = id) s.cache }
  | .group _ => { s with cache := [] }

/-- `require_permission` -/
def requirePermission (s : Registry) (user : ℕ) (role code : String) : Option Registry :=
  if role = "admin" then some s
  else if ((find role s.dir.rolePermissions).getD []).contains code then
    let resolved := s.resolve user role
    if resolved.1.denials.any fun d => d.permissionCode = code && d.scope.isNone then none
    else some resolved.2
  else none

/-- What the gate goes by; of an admin it asks nothing. -/
def gateAccess (s : Registry) (user : ℕ) (role : String) : ActorAccess × Registry :=
  if role = "admin" then (⟨[], []⟩, s) else s.resolve user role

/-- `_assert_may_touch_binding` -/
def assertMayTouchBinding (s : Registry) (user : ℕ) (role : String) (row : BindingRow) : Bool :=
  s.dir.mayTouch role (s.gateAccess user role).1 row.role row.scopeId

/-- `create_binding` past its permission. -/
def createBinding (s : Registry) (user : ℕ) (role : String) (row : BindingRow) : Option Registry :=
  let gate := s.gateAccess user role
  (s.dir.createBinding role gate.1 row).map fun dir =>
    ({ gate.2 with dir := dir } : Registry).invalidatePrincipal row.principal

/-- `update_binding` past its permission. -/
def updateBinding (s : Registry) (user : ℕ) (role : String) (id : ℕ)
    (expiresAt : Option (Option ℕ)) (reason : Option (Option String)) : Option Registry :=
  match s.dir.binding id with
  | none => none
  | some row =>
    if (expiresAt.isSome || reason.isSome) && s.assertMayTouchBinding user role row &&
        expiresAt.all s.dir.unexpired &&
        !(reason = some none && 30 ≤ s.dir.roles.rank row.role) then
      let gate := s.gateAccess user role
      some (({ gate.2 with dir := s.dir.amendBinding id expiresAt reason } :
        Registry).invalidatePrincipal row.principal)
    else none

/-- `revoke_binding` past its permission. -/
def revokeBinding (s : Registry) (user : ℕ) (role : String) (id : ℕ) : Option Registry :=
  match s.dir.binding id with
  | none => none
  | some row =>
    if s.assertMayTouchBinding user role row then
      let gate := s.gateAccess user role
      some (({ gate.2 with dir := s.dir.deleteBinding id } : Registry).invalidatePrincipal
        row.principal)
    else none

/-- `record_review` past its permission. -/
def recordReview (s : Registry) (user : ℕ) (request : ReviewRequest) : Option Registry :=
  if s.dir.principalExists request.principal &&
      (request.bindingId.all fun id => (s.dir.binding id).isSome) &&
      (request.notes.all fun notes => notes.length ≤ 500) &&
      !(request.revokeBinding &&
        (request.decision ≠ .revoke || request.bindingId.isNone)) then
    let recorded : Registry := { s with
      reviews := s.reviews ++
        [⟨request.bindingId, request.principal, user, request.decision, request.notes⟩] }
    match request.revokeBinding, request.bindingId with
    | true, some id =>
      some (({ recorded with dir := s.dir.deleteBinding id } : Registry).invalidatePrincipal
        request.principal)
    | _, _ => some recorded
  else none

/-- An operation by a user; `none` where it is refused. -/
def step (s : Registry) (act : ℕ × BindingOp) : Option Registry :=
  match find act.1 s.dir.users with
  | none => none
  | some role =>
    match act.2 with
    | .create row =>
      (s.requirePermission act.1 role bindingManage).bind fun s => s.createBinding act.1 role row
    | .update id expiresAt reason =>
      (s.requirePermission act.1 role bindingManage).bind fun s =>
        s.updateBinding act.1 role id expiresAt reason
    | .delete id =>
      (s.requirePermission act.1 role bindingManage).bind fun s => s.revokeBinding act.1 role id
    | .review request =>
      (s.requirePermission act.1 role "rbac.review.conduct").bind fun s =>
        s.recordReview act.1 request

/-- The binding that an operation inserts, changes or deletes. -/
def touched (s : Registry) : BindingOp → Option BindingRow
  | .create row => some row
  | .update id _ _ => s.dir.binding id
  | .delete id => s.dir.binding id
  | .review request =>
    if request.revokeBinding then request.bindingId.bind s.dir.binding else none

/-- The gate accepts the actor for the binding, which is the named principal's, and of those
whom it reaches nothing is cached afterwards. -/
structure PassesGate (s t : Registry) (actor : ℕ) (role : String) (named : Option Principal)
    (row : BindingRow) : Prop where
  accepted : s.assertMayTouchBinding actor role row = true
  named : ∀ principal, named = some principal → principal = row.principal
  invalidated : ∀ user, s.dir.reaches user row.principal = true → find user t.cache = none

end Registry

/-- The principal that the request names. -/
def BindingOp.named : BindingOp → Option Principal
  | .create row => some row.principal
  | .review request => some request.principal
  | _ => none

section Gate
variable {s s' t : Registry} {actor user : ℕ} {role code : String} {op : BindingOp}
  {row : BindingRow} {principal : Principal}

theorem resolve_dir : (s.resolve user role).2.dir = s.dir := by
  unfold Registry.resolve
  split
  · split <;> rfl
  · rfl

theorem resolve_reload :
    ((s.reload user role).2.resolve user role).1 = (s.reload user role).1 := by
  unfold Registry.resolve Registry.reload
  dsimp only
  rw [find_write, if_pos rfl]
  dsimp only
  rw [if_pos (Nat.lt_add_of_pos_right (by decide))]

/-- What was resolved stays resolved. -/
theorem resolve_again :
    ((s.resolve user role).2.resolve user role).1 = (s.resolve user role).1 := by
  cases hcache : find user s.cache with
  | none =>
    have hresolve : s.resolve user role = s.reload user role := by
      simp only [Registry.resolve, hcache]
    rw [hresolve, resolve_reload]
  | some entry =>
    obtain ⟨expiry, access⟩ := entry
    by_cases hlive : s.dir.now < expiry
    · simp only [Registry.resolve, hcache, if_pos hlive]
    · have hresolve : s.resolve user role = s.reload user role := by
        simp only [Registry.resolve, hcache, if_neg hlive]
      rw [hresolve, resolve_reload]

theorem requirePermission_dir (h : s.requirePermission user role code = some s') :
    s'.dir = s.dir := by
  unfold Registry.requirePermission at h
  split at h
  · exact Option.some.inj h ▸ rfl
  · split at h
    · obtain ⟨-, h⟩ := Option.ite_none_left_eq_some.mp h
      exact Option.some.inj h ▸ resolve_dir
    · cases h

/-- The check of the permission leaves the gate's answer as it was. -/
theorem assertMayTouchBinding_after (h : s.requirePermission user role code = some s')
    (row : BindingRow) :
    s'.assertMayTouchBinding user role row = s.assertMayTouchBinding user role row := by
  have hdir := requirePermission_dir h
  have haccess : (s'.gateAccess user role).1 = (s.gateAccess user role).1 := by
    unfold Registry.requirePermission at h
    unfold Registry.gateAccess
    split at h
    · exact Option.some.inj h ▸ rfl
    · rename_i hrole
      split at h
      · obtain ⟨-, h⟩ := Option.ite_none_left_eq_some.mp h
        obtain rfl := Option.some.inj h
        rw [if_neg hrole, if_neg hrole]
        exact resolve_again
      · cases h
  unfold Registry.assertMayTouchBinding
  rw [hdir, haccess]

theorem find_invalidatePrincipal (h : s.dir.reaches user principal = true) :
    find user (t.invalidatePrincipal principal).cache = none := by
  cases principal with
  | user id =>
    have hid : user = id := (of_decide_eq_true h).symm
    unfold Registry.invalidatePrincipal
    dsimp only
    rw [find_dropWhere, if_pos (decide_eq_true hid)]
  | group id => rfl

theorem touched_congr (h : s'.dir = s.dir) : s'.touched op = s.touched op := by
  cases op <;> simp only [Registry.touched, h]

/-- Creating, updating and deleting a binding ask the gate and drop what is cached. -/
theorem passesGate_of_create (h : s.createBinding actor role row = some t) :
    s.PassesGate t actor role (some row.principal) row := by
  obtain ⟨dir, hdir, rfl⟩ := Option.map_eq_some_iff.mp h
  unfold Directory.createBinding at hdir
  split at hdir
  · obtain ⟨hchecks, -⟩ := Option.ite_none_right_eq_some.mp hdir
    simp only [Bool.and_eq_true] at hchecks
    obtain ⟨⟨⟨⟨-, htouch⟩, -⟩, -⟩, -⟩ := hchecks
    exact ⟨htouch, fun principal hnamed => (Option.some.inj hnamed).symm,
      fun user hreaches => find_invalidatePrincipal hreaches⟩
  · cases hdir

theorem passesGate_of_update {id : ℕ} {expiresAt : Option (Option ℕ)}
    {reason : Option (Option String)} (h : s.updateBinding actor role id expiresAt reason = some t)
    (hrow : s.dir.binding id = some row) : s.PassesGate t actor role none row := by
  unfold Registry.updateBinding at h
  rw [hrow] at h
  obtain ⟨hchecks, h⟩ := Option.ite_none_right_eq_some.mp h
  simp only [Bool.and_eq_true] at hchecks
  obtain ⟨⟨⟨-, htouch⟩, -⟩, -⟩ := hchecks
  obtain rfl := Option.some.inj h
  exact ⟨htouch, fun principal hnamed => (nomatch hnamed),
    fun user hreaches => find_invalidatePrincipal hreaches⟩

theorem passesGate_of_delete {id : ℕ} (h : s.revokeBinding actor role id = some t)
    (hrow : s.dir.binding id = some row) : s.PassesGate t actor role none row := by
  unfold Registry.revokeBinding at h
  rw [hrow] at h
  obtain ⟨htouch, h⟩ := Option.ite_none_right_eq_some.mp h
  obtain rfl := Option.some.inj h
  exact ⟨htouch, fun principal hnamed => (nomatch hnamed),
    fun user hreaches => find_invalidatePrincipal hreaches⟩

/-- A review that revokes drops what is cached of the principal it names. -/
theorem recordReview_cache {request : ReviewRequest}
    (h : s.recordReview actor request = some t) (hrevoke : request.revokeBinding = true)
    (hreaches : s.dir.reaches user request.principal = true) : find user t.cache = none := by
  obtain ⟨hchecks, h⟩ := Option.ite_none_right_eq_some.mp h
  dsimp only at h
  split at h
  · exact Option.some.inj h ▸ find_invalidatePrincipal hreaches
  · rename_i hnot
    cases hid : request.bindingId with
    | none =>
      rw [hrevoke, hid] at hchecks
      simp at hchecks
    | some id => exact absurd hid (hnot id hrevoke)

theorem passesGate_congr (hdir : s'.dir = s.dir)
    (hgate : s'.assertMayTouchBinding actor role row = s.assertMayTouchBinding actor role row)
    {named : Option Principal} (h : s'.PassesGate t actor role named row) :
    s.PassesGate t actor role named row :=
  ⟨hgate ▸ h.accepted, h.named, fun user hreaches => h.invalidated user (hdir ▸ hreaches)⟩

/-- An operation that touches no binding leaves them all as they are. -/
theorem bindings_untouched (h : s.step (actor, op) = some t) (hnone : s.touched op = none) :
    t.dir.bindings = s.dir.bindings := by
  unfold Registry.step at h
  dsimp only at h
  split at h
  · cases h
  · cases op with
    | create => cases hnone
    | update id expiresAt reason =>
      obtain ⟨s', hs', h⟩ := Option.bind_eq_some_iff.mp h
      have hgone : s'.dir.binding id = none := requirePermission_dir hs' ▸ hnone
      simp only [Registry.updateBinding, hgone, reduceCtorEq] at h
    | delete id =>
      obtain ⟨s', hs', h⟩ := Option.bind_eq_some_iff.mp h
      have hgone : s'.dir.binding id = none := requirePermission_dir hs' ▸ hnone
      simp only [Registry.revokeBinding, hgone, reduceCtorEq] at h
    | review request =>
      obtain ⟨s', hs', h⟩ := Option.bind_eq_some_iff.mp h
      rw [← touched_congr (requirePermission_dir hs')] at hnone
      rw [← requirePermission_dir hs']
      obtain ⟨hchecks, h⟩ := Option.ite_none_right_eq_some.mp h
      dsimp only at h
      split at h
      · -- a review that revokes touches the binding, which was checked to be there
        rename_i id hrevoke hid
        simp only [Registry.touched, hrevoke, if_true, hid, Option.bind_some] at hnone
        simp [hid, hnone] at hchecks
      · exact Option.some.inj h ▸ rfl

end Gate

section Traces

/-- An editor who may manage bindings, a viewer who conducts reviews, and a viewer with a binding
whose access is cached. -/
def office : Registry where
  dir :=
    { now := 0
      users := [(7, "editor"), (8, "viewer"), (9, "viewer"), (10, "viewer")]
      parents := []
      members := []
      roles := ⟨[⟨"editor", 20, [bindingManage]⟩, ⟨"oncall", 0, ["operations.execute"]⟩], by decide⟩
      rolePermissions := [("editor", [bindingManage]), ("viewer", ["rbac.review.conduct"])]
      codes := [bindingManage, "rbac.review.conduct", "operations.execute"]
      scopes := [.everywhere]
      bindings := [some ⟨.user 7, "editor", 0, none, none⟩, some ⟨.user 9, "oncall", 0, none, none⟩]
      accessScopes := []
      groupPolicies := []
      overrides := []
      bound := by decide }
  reviews := []
  cache := [(9, 60, ⟨[⟨⟨["operations.execute"], .everywhere⟩, 0⟩], []⟩)]

end Traces

end MonitoringHub.Administration
