/-
**The portal's list of applications.**

`reachable` keeps the applications of one joined query that `Policy.decide` would open at the root.

* `portalApps_grouped`: the loop over the ordered row stream is a grouping by slug, and the group of
  an application holds the rules `rulesFor` would return for it.
* `reachable_exact`: the portal lists exactly the applications that are enabled and open at the
  root, each once, with its own name and hostname.
-/

import OpenBerat.Http
import OpenBerat.Store

namespace OpenBerat

open Lib (Plan)

/-! ### The handler -/

/-- The first value of a request header, by lower-case name. -/
abbrev Headers := Str → Option HeaderValue

/-- The signed-in user, as nginx rewrote them onto the request. -/
structure Caller where
  sub : Str
  username : Str
  email : Str
  groups : List Str
  deriving DecidableEq

/-- `Caller::from`: a caller is whoever has a subject. -/
def Caller.ofHeaders (http : HeaderText) (headers : Headers) : Option Caller :=
  let value := fun name : String => ((headers name.toList).bind http.toStr).getD []
  let sub := value "x-auth-subject"
  if sub ≠ [] then
    some { sub := sub
           username := value "x-auth-username"
           email := value "x-auth-email"
           groups := groupNames (value "x-auth-groups") }
  else none

namespace Portal

open Store

/-- An application as the portal lists it. -/
structure ListedApp where
  slug : Str
  name : Str
  icon : Option Str
  url : Str
  deriving DecidableEq

/-- What `apps` answers. -/
inductive Response
  | unauthorized
  | unavailable
  | listed (apps : List ListedApp)
  deriving DecidableEq

/-- The link of an application. -/
def urlOf (externalHostname : Str) : Str :=
  "https://".toList ++ externalHostname ++ ['/']

/-- An application with its link. -/
def listedApp (app : PortalApp) : ListedApp :=
  { slug := app.slug
    name := app.name
    icon := app.icon
    url := urlOf app.externalHostname }

/-- The rules let the user in at the root. -/
def opensAtRoot (now : DateTime) (app : PortalApp) : Bool :=
  Policy.decide true app.rules ['/'] now == .allow

/-- The applications that open at the root, as they are listed. -/
def reachable (found : List PortalApp) (now : DateTime) : List ListedApp :=
  (found.filter (opensAtRoot now)).map listedApp

/-- `GET /api/apps`; `query` is the outcome of `portal_apps`, nothing where it failed. -/
def apps (http : HeaderText) (headers : Headers)
    (query : Str → List Str → Option (List PortalApp)) (now : DateTime) : Response :=
  match Caller.ofHeaders http headers with
  | none => .unauthorized
  | some caller =>
    match query caller.sub caller.groups with
    | none => .unavailable
    | some found => .listed (reachable found now)

/-! ### The loop is a grouping -/

/-- The application a block of rows stands for. -/
def appOfBlock (block : Lib.Block PortalRow) : PortalApp :=
  { openApp block.first with rules := block.members.filterMap portalRule }

theorem filterMap_portalRule_concat (rows : List PortalRow) (row : PortalRow) :
    (rows ++ [row]).filterMap portalRule = rows.filterMap portalRule ++
      (portalRule row).toList := by
  rw [List.filterMap_append]
  cases rule : portalRule row <;> simp [rule]

theorem pushPortalRow_map (blocks : List (Lib.Block PortalRow)) (row : PortalRow) :
    pushPortalRow (blocks.map appOfBlock) row =
      (Lib.pushRow (·.slug) blocks row).map appOfBlock := by
  have opened : pushRule (openApp row) row = appOfBlock ⟨row, []⟩ := by
    unfold pushRule appOfBlock Lib.Block.members
    cases rule : portalRule row <;> simp [rule, openApp]
  rcases List.eq_nil_or_concat blocks with rfl | ⟨front, block, rfl⟩
  · show [pushRule (openApp row) row] = [appOfBlock ⟨row, []⟩]
    rw [opened]
  · unfold pushPortalRow Lib.pushRow
    simp only [List.concat_eq_append, List.map_append, List.map_cons, List.map_nil,
      List.getLast?_concat, Option.all_some, List.dropLast_concat]
    by_cases same : block.first.slug = row.slug
    · have kept : ((appOfBlock block).slug != row.slug) = false := by
        simpa [appOfBlock, openApp] using same
      rw [kept, if_pos same, if_neg Bool.false_ne_true]
      simp only [List.getLast?_concat, List.dropLast_concat, List.map_append, List.map_cons,
        List.map_nil]
      unfold pushRule appOfBlock Lib.Block.members
      rw [← List.cons_append, filterMap_portalRule_concat]
    · have fresh : ((appOfBlock block).slug != row.slug) = true := by
        simpa [appOfBlock, openApp] using same
      rw [fresh, if_neg same, if_pos rfl]
      simp only [List.getLast?_concat, List.dropLast_concat, List.map_append, List.map_cons,
        List.map_nil, opened]

theorem foldl_pushPortalRow (rows : List PortalRow) :
    rows.foldl pushPortalRow [] = (Lib.groupAdjacent (·.slug) rows).map appOfBlock := by
  induction rows using List.reverseRecOn with
  | nil => rfl
  | append_singleton rows row ih =>
    rw [List.foldl_append, List.foldl_cons, List.foldl_nil, ih, pushPortalRow_map,
      Lib.groupAdjacent_concat]

/-! ### The order of the stream -/

variable {db : Db} {collation : Collation}

theorem collation_refl (collation : Collation) (text : Str) : collation.le text text = true := by
  rcases Bool.or_eq_true_iff.mp (collation.total text text) with same | same <;> exact same

theorem portalLe_total (first second : PortalRow) :
    (portalLe collation first second || portalLe collation second first) = true := by
  unfold portalLe
  by_cases same : first.name = second.name
  · rw [if_pos same, if_pos same.symm]
    exact collation.total _ _
  · rw [if_neg same, if_neg fun back => same back.symm]
    exact collation.total _ _

theorem portalLe_trans (first second third : PortalRow)
    (below : portalLe collation first second = true)
    (above : portalLe collation second third = true) : portalLe collation first third = true := by
  unfold portalLe at below above ⊢
  by_cases left : first.name = second.name
  · rw [if_pos left] at below
    rw [left]
    by_cases right : second.name = third.name
    · rw [if_pos right] at above ⊢
      exact collation.trans _ _ _ below above
    · rw [if_neg right] at above ⊢
      exact above
  · rw [if_neg left] at below
    by_cases right : second.name = third.name
    · rw [← right, if_neg left]
      exact below
    · rw [if_neg right] at above
      have outer : first.name ≠ third.name := fun same =>
        left (collation.antisymm _ _ below (same ▸ above))
      rw [if_neg outer]
      exact collation.trans _ _ _ below above

theorem mem_portalRows {plan : Plan PortalRow} {sub : Str} {groups : List Str} {row : PortalRow} :
    row ∈ portalRows db collation plan sub groups ↔ row ∈ joinedRows db sub groups := by
  unfold portalRows
  rw [List.mem_mergeSort, (plan.perm _).mem_iff]

/-- A row of the stream comes from one enabled application. -/
theorem exists_app_of_mem {sub : Str} {groups : List Str} {row : PortalRow}
    (member : row ∈ joinedRows db sub groups) :
    ∃ app ∈ db.applications, app.enabled = true ∧ row.slug = app.slug ∧ row.name = app.name ∧
      row.icon = app.icon ∧ row.externalHostname = app.externalHostname := by
  obtain ⟨joined, inside, rfl⟩ := List.mem_map.mp member
  have left := List.mem_filter.mp (Lib.fst_mem_of_mem_leftJoin inside)
  exact ⟨joined.1, left.1, left.2, rfl, rfl, rfl, rfl⟩

/-- **Slug ties are order ties.** The name is determined by the slug, so ordering by name first does
not separate the rows of one application. -/
theorem portalRows_separates (plan : Plan PortalRow) (sub : Str) (groups : List Str) :
    Lib.Separates (·.slug) (portalLe collation) (portalRows db collation plan sub groups) := by
  refine ⟨portalLe_trans, fun first firstMem second secondMem => ?_⟩
  obtain ⟨left, leftMem, _, leftSlug, leftName, _⟩ := exists_app_of_mem (mem_portalRows.mp firstMem)
  obtain ⟨right, rightMem, _, rightSlug, rightName, _⟩ :=
    exists_app_of_mem (mem_portalRows.mp secondMem)
  unfold portalLe
  constructor
  · rintro ⟨up, down⟩
    by_cases names : first.name = second.name
    · rw [if_pos names] at up
      rw [if_pos names.symm] at down
      exact collation.antisymm _ _ up down
    · rw [if_neg names] at up
      rw [if_neg fun back => names back.symm] at down
      exact absurd (collation.antisymm _ _ up down) names
  · intro slugs
    have apps : left = right := List.inj_on_of_nodup_map db.slugUnique leftMem rightMem
      (by rw [← leftSlug, ← rightSlug]; exact slugs)
    have names : first.name = second.name := by rw [leftName, rightName, apps]
    rw [if_pos names, if_pos names.symm, slugs]
    exact ⟨collation_refl collation _, collation_refl collation _⟩

theorem portalRows_grouped (plan : Plan PortalRow) (sub : Str) (groups : List Str) :
    Lib.Grouped (·.slug) (portalRows db collation plan sub groups)
      (Lib.groupAdjacent (·.slug) (portalRows db collation plan sub groups)) :=
  Lib.groupAdjacent_grouped (portalRows_separates plan sub groups)
    (List.pairwise_mergeSort portalLe_trans portalLe_total _)

/-! ### The group of an application -/

theorem portalRule_portalRow (row : ApplicationRow × Option EntitlementRow) :
    portalRule (portalRow row) = row.2.map ruleOfRow := by
  obtain ⟨app, entitlement⟩ := row
  cases entitlement <;> rfl

/-- The rows of one application carry its applicable entitlements. -/
theorem joinedRows_of_app {app : ApplicationRow} (member : app ∈ db.applications)
    (enabled : app.enabled = true) (sub : Str) (groups : List Str) :
    ((joinedRows db sub groups).filter fun row => row.slug = app.slug).filterMap portalRule =
      (db.entitlements.filter (applicable app.id sub groups)).map ruleOfRow := by
  have one : (db.applications.filter (·.enabled)).filter (fun other => other.slug = app.slug) =
      [app] := by
    refine Lib.filter_key_eq_singleton ?_ (List.mem_filter.mpr ⟨member, enabled⟩)
    exact db.slugUnique.sublist (List.filter_sublist.map _)
  have rows := @Lib.leftJoin_filter _ _ (joins sub groups) db.entitlements
    (db.applications.filter (·.enabled)) fun other => other.slug = app.slug
  unfold joinedRows
  rw [List.filter_map, List.filterMap_map]
  show ((Lib.leftJoin (joins sub groups) (db.applications.filter (·.enabled))
    db.entitlements).filter fun row => row.1.slug = app.slug).filterMap _ = _
  rw [rows, one]
  have matched := @Lib.filterMap_snd_joinRows _ _ (joins sub groups) db.entitlements app
  have composed : portalRule ∘ portalRow =
      fun row : ApplicationRow × Option EntitlementRow => row.2.map ruleOfRow :=
    funext portalRule_portalRow
  rw [composed, ← List.map_filterMap]
  show ((Lib.leftJoin (joins sub groups) [app] db.entitlements).filterMap Prod.snd).map _ = _
  unfold Lib.leftJoin
  rw [List.flatMap_singleton, matched]
  rfl

/-- **Each group is one enabled application under exactly its own rules.** -/
theorem portalApps_grouped (plan : Plan PortalRow) (rulesPlan : Plan EntitlementRow) (sub : Str)
    (groups : List Str) {app : PortalApp} (member : app ∈ portalApps db collation plan sub groups) :
    ∃ row ∈ db.applications, row.enabled = true ∧ app.slug = row.slug ∧ app.name = row.name ∧
      app.icon = row.icon ∧ app.externalHostname = row.externalHostname ∧
      ∃ rules, rulesFor db rulesPlan app.slug sub groups = some ⟨row.id, true, rules⟩ ∧
        app.rules.Perm rules := by
  have grouped := @portalRows_grouped db collation plan sub groups
  unfold portalApps at member
  rw [foldl_pushPortalRow] at member
  obtain ⟨block, inside, rfl⟩ := List.mem_map.mp member
  obtain ⟨row, rowMem, enabled, slug, name, icon, hostname⟩ :=
    exists_app_of_mem (mem_portalRows.mp (grouped.first_mem inside))
  obtain ⟨rules, found, perm⟩ :=
    @rulesFor_eq_some db rulesPlan block.first.slug sub groups row rowMem
    slug.symm
  refine ⟨row, rowMem, enabled, slug, name, icon, hostname, rules, enabled ▸ found, ?_⟩
  show (block.members.filterMap portalRule).Perm rules
  rw [grouped.members block inside]
  have stream : (portalRows db collation plan sub groups).Perm (joinedRows db sub groups) :=
    (List.mergeSort_perm _ _).trans (plan.perm _)
  have own := joinedRows_of_app rowMem enabled sub groups
  rw [← slug] at own
  exact (((stream.filter _).filterMap _).trans (own ▸ List.Perm.refl _)).trans perm.symm

theorem portalApps_nodup (plan : Plan PortalRow) (sub : Str) (groups : List Str) :
    ((portalApps db collation plan sub groups).map (·.slug)).Nodup := by
  unfold portalApps
  rw [foldl_pushPortalRow, List.map_map]
  exact (portalRows_grouped plan sub groups).nodup

/-- Every enabled application has a group. -/
theorem exists_portalApp (plan : Plan PortalRow) (sub : Str) (groups : List Str)
    {row : ApplicationRow} (member : row ∈ db.applications) (enabled : row.enabled = true) :
    ∃ app ∈ portalApps db collation plan sub groups, app.slug = row.slug := by
  obtain ⟨joined, inside, same⟩ := @Lib.exists_mem_leftJoin _ _ (joins sub groups) db.entitlements
    _ row (List.mem_filter.mpr ⟨member, enabled⟩)
  obtain ⟨block, blockMem, slug⟩ := (@portalRows_grouped db collation plan sub groups).covered
    (portalRow joined) (mem_portalRows.mpr (List.mem_map_of_mem inside))
  unfold portalApps
  rw [foldl_pushPortalRow]
  refine ⟨appOfBlock block, List.mem_map_of_mem blockMem, ?_⟩
  show block.first.slug = row.slug
  rw [slug, ← same]
  rfl

/-- **The portal lists exactly what the decision would open at the root.** -/
theorem reachable_exact (db : Db) (collation : Collation) (plan : Plan PortalRow)
    (rulesPlan : Plan EntitlementRow) (sub : Str) (groups : List Str) (now : DateTime) :
    (∀ slug, slug ∈ (reachable (portalApps db collation plan sub groups) now).map (·.slug) ↔
      ∃ found, rulesFor db rulesPlan slug sub groups = some found ∧ found.enabled = true ∧
        Policy.decide found.enabled found.rules ['/'] now = .allow) ∧
    ((reachable (portalApps db collation plan sub groups) now).map (·.slug)).Nodup ∧
    (∀ app ∈ reachable (portalApps db collation plan sub groups) now,
      ∃ row ∈ db.applications, app.slug = row.slug ∧ app.name = row.name ∧ app.icon = row.icon ∧
        app.url = urlOf row.externalHostname) ∧
    ∀ app ∈ portalApps db collation plan sub groups,
      ∃ found, rulesFor db rulesPlan app.slug sub groups = some found ∧
        app.rules.Perm found.rules := by
  have slugs : (reachable (portalApps db collation plan sub groups) now).map (·.slug) =
      ((portalApps db collation plan sub groups).filter (opensAtRoot now)).map (·.slug) := by
    unfold reachable
    rw [List.map_map]
    rfl
  have opens : ∀ app ∈ portalApps db collation plan sub groups, ∀ found,
      rulesFor db rulesPlan app.slug sub groups = some found → (opensAtRoot now app = true ↔
        found.enabled = true ∧ Policy.decide found.enabled found.rules ['/'] now = .allow) := by
    intro app member found same
    obtain ⟨row, _, _, _, _, _, _, rules, found', perm⟩ :=
      portalApps_grouped plan rulesPlan sub groups member
    rw [found'] at same
    cases same
    unfold opensAtRoot
    rw [beq_iff_eq, Policy.decide_congr fun rule => perm.mem_iff]
    exact (and_iff_right rfl).symm
  refine ⟨fun slug => ?_, ?_, ?_, ?_⟩
  · rw [slugs, List.mem_map]
    constructor
    · rintro ⟨app, kept, rfl⟩
      obtain ⟨member, open_⟩ := List.mem_filter.mp kept
      obtain ⟨row, _, _, _, _, _, _, rules, found, _⟩ :=
        portalApps_grouped plan rulesPlan sub groups member
      exact ⟨_, found, (opens app member _ found).mp open_⟩
    · rintro ⟨found, same, enabled, allowed⟩
      have stored := same
      unfold rulesFor at stored
      obtain ⟨row, rowFound, rfl⟩ := Option.map_eq_some_iff.mp stored
      obtain ⟨rowMem, rfl⟩ := findSlug_eq_some.mp rowFound
      obtain ⟨app, member, slug⟩ := exists_portalApp plan sub groups rowMem enabled
      rw [← slug] at same ⊢
      exact ⟨app, List.mem_filter.mpr ⟨member, (opens app member _ same).mpr ⟨enabled, allowed⟩⟩,
        rfl⟩
  · rw [slugs]
    exact (portalApps_nodup plan sub groups).sublist (List.filter_sublist.map _)
  · intro app listed
    obtain ⟨group, kept, rfl⟩ := List.mem_map.mp listed
    obtain ⟨row, rowMem, _, slug, name, icon, hostname, _⟩ :=
      portalApps_grouped plan rulesPlan sub groups (List.mem_of_mem_filter kept)
    exact ⟨row, rowMem, slug, name, icon, congrArg urlOf hostname⟩
  · intro app member
    obtain ⟨row, _, _, _, _, _, _, rules, found, perm⟩ :=
      portalApps_grouped plan rulesPlan sub groups member
    exact ⟨_, found, perm⟩

end Portal

end OpenBerat
