import Aseman.Authority.Decisions
import Mathlib.Data.Finset.Card
import Mathlib.Logic.Relation

/-!
# Revocation

The walk of `RevokeGrant::execute` over the children of grants and the fixpoint of `revocation_closure`
over a list of grants find the same grants: those from which the revoked one is reached by parent links.
None of them is live after the revocation, as a chain is checked up to its root.
-/

namespace Aseman.Authority

open OrderedMap Relation

/-! ## The fixpoint -/

def addChild (closure : Finset Uuid) (g : Grant) : Finset Uuid :=
  if g.parent.any (· ∈ closure) then insert g.id closure else closure

/-- One pass of the loop of `revocation_closure`. -/
def closurePass (grants : List Grant) (closure : Finset Uuid) : Finset Uuid :=
  grants.foldl addChild closure

def closureRounds (grants : List Grant) : Nat → Finset Uuid → Finset Uuid
  | 0, closure => closure
  | rounds + 1, closure =>
    let after := closurePass grants closure
    if after.card = closure.card then after else closureRounds grants rounds after

/-- `revocation_closure`: every pass but the last adds a grant. -/
def Grant.revocationClosure (grants : List Grant) (revoked : Uuid) : Finset Uuid :=
  closureRounds grants (grants.length + 1) {revoked}

/-- One of the grants is `child`, and its parent is `parent`. -/
def ParentLink (grants : List Grant) (child parent : Uuid) : Prop :=
  ∃ g ∈ grants, g.id = child ∧ g.parent = some parent

/-- Following parent links from the first grant leads to the second. -/
abbrev Reaches (grants : List Grant) : Uuid → Uuid → Prop := ReflTransGen (ParentLink grants)

section Fixpoint

variable {grants : List Grant} {id : Uuid}

theorem Reaches.mem {x} (h : Reaches grants x id) {closed : Uuid → Prop} (hid : closed id)
    (hlink : ∀ child parent, ParentLink grants child parent → closed parent → closed child) :
    closed x := by
  induction h using ReflTransGen.head_induction_on with
  | refl => exact hid
  | head hstep _ ih => exact hlink _ _ hstep ih

theorem subset_closurePass (grants : List Grant) (closure : Finset Uuid) :
    closure ⊆ closurePass grants closure := by
  induction grants generalizing closure with
  | nil => exact Finset.Subset.refl _
  | cons g grants ih =>
      refine Finset.Subset.trans ?_ (ih (addChild closure g))
      unfold addChild
      split
      · exact Finset.subset_insert ..
      · exact Finset.Subset.refl _

theorem mem_closurePass_of_link {closure child parent} (h : ParentLink grants child parent)
    (hparent : parent ∈ closure) : child ∈ closurePass grants closure := by
  induction grants generalizing closure with
  | nil =>
      obtain ⟨g, hg, -⟩ := h
      cases hg
  | cons g grants ih =>
      obtain ⟨g', hg', rfl, hlink⟩ := h
      rcases List.mem_cons.mp hg' with rfl | hg'
      · apply subset_closurePass grants
        simp [addChild, hlink, hparent]
      · apply ih ⟨g', hg', rfl, hlink⟩
        unfold addChild
        split <;> simp [hparent]

theorem reaches_of_mem_closurePass {closure : Finset Uuid} (hsound : ∀ x ∈ closure, Reaches grants x id) :
    ∀ x ∈ closurePass grants closure, Reaches grants x id := by
  -- The fold runs over a part of the grants while links may use all of them.
  have hpart : ∀ part ⊆ grants, ∀ closure : Finset Uuid, (∀ x ∈ closure, Reaches grants x id) →
      ∀ x ∈ closurePass part closure, Reaches grants x id := by
    intro part
    induction part with
    | nil => exact fun _ _ h => h
    | cons g part ih =>
        intro hsub closure hsound
        apply ih fun _ hg => hsub (List.mem_cons_of_mem _ hg)
        intro x hx
        unfold addChild at hx
        split at hx
        · next hparent =>
            obtain ⟨parent, hlink, hmem⟩ := (Option.any_eq_true ..).mp hparent
            rcases Finset.mem_insert.mp hx with rfl | hx
            · exact .head ⟨g, hsub List.mem_cons_self, rfl, hlink⟩ (hsound _ (by simpa using hmem))
            · exact hsound x hx
        · exact hsound x hx
  exact hpart grants (List.Subset.refl _) closure hsound

theorem mem_closureRounds {rounds} {closure : Finset Uuid} (hid : id ∈ closure)
    (hsound : ∀ x ∈ closure, Reaches grants x id) (hrounds : grants.length + 1 < rounds + closure.card) {x} :
    x ∈ closureRounds grants rounds closure ↔ Reaches grants x id := by
  induction rounds generalizing closure with
  | zero =>
      -- What is found is the revoked grant and ids of grants.
      have hsub : closure ⊆ insert id (grants.map (·.id)).toFinset := by
        intro x hx
        rcases ReflTransGen.cases_head (hsound x hx) with rfl | ⟨_, ⟨g, hg, rfl, _⟩, _⟩
        · exact Finset.mem_insert_self ..
        · exact Finset.mem_insert_of_mem (by simpa using ⟨g, hg, rfl⟩)
      have hcard := Finset.card_le_card hsub
      have hinsert := Finset.card_insert_le id (grants.map (·.id)).toFinset
      have hlength := List.toFinset_card_le (grants.map (·.id))
      rw [List.length_map] at hlength
      omega
  | succ rounds ih =>
      have hgrows := subset_closurePass grants closure
      have hafter := reaches_of_mem_closurePass hsound
      simp only [closureRounds]
      split
      · next hsame =>
          refine ⟨hafter x, fun hx => hx.mem (hgrows hid) fun child parent hlink hparent => ?_⟩
          rw [← Finset.eq_of_subset_of_card_le hgrows hsame.le] at hparent
          exact mem_closurePass_of_link hlink hparent
      · next hmore =>
          have hcard := Finset.card_le_card hgrows
          exact ih (hgrows hid) hafter (by omega)

theorem Grant.mem_revocationClosure {x} :
    x ∈ Grant.revocationClosure grants id ↔ Reaches grants x id :=
  mem_closureRounds (Finset.mem_singleton_self id)
    (fun _ hx => Finset.mem_singleton.mp hx ▸ .refl) (by simp)

end Fixpoint

/-! ## The walk -/

def GrantStore.all (store : GrantStore) : List Grant := store.entries.map (·.2)

/-- Every grant is stored under its id. -/
def GrantStore.Keyed (store : GrantStore) : Prop := ∀ id g, store.get id = some g → g.id = id

variable {store : GrantStore} {id : Uuid}

theorem GrantStore.mem_all (hkeyed : store.Keyed) {g} :
    g ∈ store.all ↔ store.get g.id = some g := by
  simp only [GrantStore.all, List.mem_map, get_eq_some_iff]
  constructor
  · rintro ⟨⟨key, g'⟩, hmem, rfl⟩
    rwa [hkeyed key g' (get_eq_some_iff.mpr hmem)]
  · exact fun hmem => ⟨_, hmem, rfl⟩

theorem mem_children (hsize : store.all.length ≤ maxQueryLimit) {g parent} :
    g ∈ store.children parent ↔ g ∈ store.all ∧ g.parent = some parent := by
  have hlength := (List.length_filter_le (fun g : Grant => decide (g.parent = some parent))
    store.all).trans hsize
  unfold GrantStore.all at hlength ⊢
  rw [GrantStore.children, List.take_of_length_le hlength, List.mem_filter, decide_eq_true_eq]

/-- The body of the loop over the children of a grant: what is in the closure, what of it is pending, and
whether the closure is full. -/
def pushChild (acc : List Uuid × List Uuid × Bool) (child : Grant) : List Uuid × List Uuid × Bool :=
  if acc.2.2 then acc
  else if maxRevocationClosure ≤ acc.1.length then (acc.1, acc.2.1, true)
  else if child.id ∈ acc.1 then acc
  else (acc.1 ++ [child.id], acc.2.1 ++ [child.id], false)

theorem foldl_pushChild_full (children : List Grant) (closure pending : List Uuid) :
    children.foldl pushChild (closure, pending, true) = (closure, pending, true) := by
  induction children with
  | nil => rfl
  | cons child children ih => exact ih

/-- The children that are new are pushed, each once, until the closure is full. -/
theorem foldl_pushChild (children : List Grant) {closure pending : List Uuid} (hnodup : closure.Nodup) :
    ∃ new full, children.foldl pushChild (closure, pending, false) = (closure ++ new, pending ++ new, full) ∧
      (closure ++ new).Nodup ∧ (∀ x ∈ new, ∃ child ∈ children, child.id = x) ∧
      (full = false → ∀ child ∈ children, child.id ∈ closure ++ new) ∧
      (full = true → maxRevocationClosure ≤ (closure ++ new).length) := by
  induction children generalizing closure pending with
  | nil => exact ⟨[], false, by simp, by simpa using hnodup, by simp⟩
  | cons child children ih =>
      by_cases hfull : maxRevocationClosure ≤ closure.length
      · refine ⟨[], true, ?_, by simpa using hnodup, by simp, by simp, by simpa using hfull⟩
        rw [List.foldl_cons, show pushChild (closure, pending, false) child = (closure, pending, true) by
          simp [pushChild, hfull], foldl_pushChild_full, List.append_nil, List.append_nil]
      · by_cases hmem : child.id ∈ closure
        · obtain ⟨new, full, heq, hnew, hchild, hall, hlen⟩ := ih hnodup
          refine ⟨new, full, ?_, hnew, fun x hx => ?_, fun hf c hc => ?_, hlen⟩
          · rw [List.foldl_cons, show pushChild (closure, pending, false) child = (closure, pending, false) by
              simp [pushChild, hfull, hmem], heq]
          · obtain ⟨c, hc, rfl⟩ := hchild x hx
            exact ⟨c, List.mem_cons_of_mem _ hc, rfl⟩
          · rcases List.mem_cons.mp hc with rfl | hc
            · exact List.mem_append_left _ hmem
            · exact hall hf c hc
        · have hnodup' : (closure ++ [child.id]).Nodup := by
            simpa [List.nodup_append] using ⟨hnodup, fun a ha h => hmem (h ▸ ha)⟩
          obtain ⟨new, full, heq, hnew, hchild, hall, hlen⟩ := @ih _ (pending ++ [child.id]) hnodup'
          rw [List.append_assoc, List.append_assoc] at heq
          rw [List.append_assoc] at hnew hlen hall
          refine ⟨child.id :: new, full, ?_, hnew, fun x hx => ?_, fun hf c hc => ?_, hlen⟩
          · rw [List.foldl_cons, show pushChild (closure, pending, false) child =
              (closure ++ [child.id], pending ++ [child.id], false) by simp [pushChild, hfull, hmem], heq]
            rfl
          · rcases List.mem_cons.mp hx with rfl | hx
            · exact ⟨child, List.mem_cons_self, rfl⟩
            · obtain ⟨c, hc, rfl⟩ := hchild x hx
              exact ⟨c, List.mem_cons_of_mem _ hc, rfl⟩
          · rcases List.mem_cons.mp hc with rfl | hc
            · simp
            · exact hall hf c hc

theorem revocationClosure_nil (rounds : Nat) (closure : List Uuid) :
    revocationClosure store rounds closure [] = closure := by
  cases rounds <;> rfl

theorem revocationClosure_cons (rounds : Nat) (closure : List Uuid) (next : Uuid) (pending : List Uuid) :
    revocationClosure store (rounds + 1) closure (next :: pending) =
      let found := (store.children next).foldl pushChild (closure, pending, false)
      if found.2.2 then found.1 else revocationClosure store rounds found.1 found.2.1 := by
  rw [revocationClosure]
  split
  all_goals
    rename_i hfound
    replace hfound : (store.children next).foldl pushChild (closure, pending, false) = _ := hfound
    rw [hfound]
    rfl

/-- What holds before every round: the children of the grants that were popped are in the closure. -/
structure Walk (store : GrantStore) (id : Uuid) (popped pending : List Uuid) : Prop where
  nodup : (popped ++ pending).Nodup
  start : id ∈ popped ++ pending
  sound : ∀ x ∈ popped ++ pending, Reaches store.all x id
  closed : ∀ x ∈ popped, ∀ child ∈ store.children x, child.id ∈ popped ++ pending

section Walk

variable {popped pending : List Uuid}

theorem stored_of_reaches {x} (hid : id ∈ store.all.map (·.id)) (hx : Reaches store.all x id) :
    x ∈ store.all.map (·.id) := by
  rcases ReflTransGen.cases_head hx with rfl | ⟨_, ⟨g, hg, rfl, _⟩, _⟩
  · exact hid
  · exact List.mem_map_of_mem hg

/-- The walk has found what it should: every grant that reaches the revoked one, once. -/
def Found (store : GrantStore) (id : Uuid) (closure : List Uuid) : Prop :=
  closure.Nodup ∧ ∀ x, x ∈ closure ↔ Reaches store.all x id

theorem Walk.found (h : Walk store id popped []) (hsize : store.all.length ≤ maxQueryLimit) :
    Found store id popped := by
  refine ⟨by simpa using h.nodup, fun x => ⟨fun hx => h.sound x (by simpa using hx), fun hx => ?_⟩⟩
  refine hx.mem (by simpa using h.start) fun child parent ⟨g, hg, hgid, hparent⟩ hmem => ?_
  subst hgid
  simpa using h.closed parent hmem g ((mem_children hsize).mpr ⟨hg, hparent⟩)

/-- A closure with as many grants as are stored has all of them. -/
theorem found_of_length {closure : List Uuid} (hnodup : closure.Nodup)
    (hsound : ∀ x ∈ closure, Reaches store.all x id) (hid : id ∈ store.all.map (·.id))
    (hlength : store.all.length ≤ closure.length) : Found store id closure := by
  refine ⟨hnodup, fun x => ⟨hsound x, fun hx => ?_⟩⟩
  have hperm := (hnodup.subperm fun y hy => stored_of_reaches hid (hsound y hy)).perm_of_length_le
    (by simpa using hlength)
  exact hperm.mem_iff.mpr (stored_of_reaches hid hx)

/-- The walk finds what it should within as many rounds as there are grants, and more rounds change
nothing. -/
theorem Walk.ends {rounds} (h : Walk store id popped pending) (hid : id ∈ store.all.map (·.id))
    (hsize : store.all.length ≤ maxRevocationClosure)
    (hrounds : store.all.length ≤ rounds + popped.length) :
    ∃ closure, Found store id closure ∧ ∀ more,
      revocationClosure store (rounds + more) (popped ++ pending) pending = closure := by
  induction rounds generalizing popped pending with
  | zero =>
      -- As many grants were popped as there are, so none is pending.
      have hlength := (h.nodup.subperm fun y hy => stored_of_reaches hid (h.sound y hy)).length_le
      rw [List.length_append, List.length_map] at hlength
      obtain rfl : pending = [] := List.length_eq_zero_iff.mp (by omega)
      exact ⟨popped, h.found hsize, fun more => by rw [revocationClosure_nil, List.append_nil]⟩
  | succ rounds ih =>
      cases pending with
      | nil => exact ⟨popped, h.found hsize, fun more => by rw [revocationClosure_nil, List.append_nil]⟩
      | cons next pending =>
          obtain ⟨new, full, heq, hnodup, hchild, hall, hlen⟩ :=
            foldl_pushChild (store.children next) h.nodup
          have hsound : ∀ x ∈ popped ++ next :: pending ++ new, Reaches store.all x id := by
            intro x hx
            rcases List.mem_append.mp hx with hx | hx
            · exact h.sound x hx
            · obtain ⟨child, hc, rfl⟩ := hchild x hx
              obtain ⟨hstored, hparent⟩ := (mem_children hsize).mp hc
              exact .head ⟨child, hstored, rfl, hparent⟩ (h.sound next (by simp))
          have hround : ∀ more, revocationClosure store (rounds + 1 + more) (popped ++ next :: pending)
              (next :: pending) = if full then popped ++ next :: pending ++ new else
                revocationClosure store (rounds + more) (popped ++ next :: pending ++ new)
                  (pending ++ new) := by
            intro more
            rw [Nat.add_right_comm, revocationClosure_cons, heq]
          cases full with
          | true =>
              exact ⟨_, found_of_length hnodup hsound hid (hsize.trans (hlen rfl)), hround⟩
          | false =>
              have hsplit : popped ++ next :: pending ++ new = popped ++ [next] ++ (pending ++ new) := by
                simp
              rw [hsplit] at hnodup hsound
              have hwalk : Walk store id (popped ++ [next]) (pending ++ new) := by
                refine ⟨hnodup, ?_, hsound, fun x hx child hc => ?_⟩
                · rw [← hsplit]
                  exact List.mem_append_left _ h.start
                · rw [← hsplit]
                  rcases List.mem_append.mp hx with hx | hx
                  · exact List.mem_append_left _ (h.closed x hx child hc)
                  · obtain rfl := List.mem_singleton.mp hx
                    exact hall rfl child hc
              obtain ⟨closure, hfound, hclosure⟩ := ih hwalk (by simp; omega)
              refine ⟨closure, hfound, fun more => ?_⟩
              rw [hround, hsplit, if_neg Bool.false_ne_true, hclosure]

end Walk

/-! ## Liveness -/

/-- `grant_is_live`. -/
def grantIsLive (store : GrantStore) (id : Uuid) (nowMillis : Int) : Bool :=
  match store.grant id with
  | none => false
  | some g => (chainOf store g).any fun chain => (checkChain chain nowMillis).isOk

/-- The chain of a grant passes every grant that its parent links lead to. -/
theorem mem_ancestors_of_reaches (hkeyed : store.Keyed) {x g above more chain}
    (hx : Reaches store.all x id) (hg : store.get x = some g) (habove : store.get id = some above)
    (hchain : ancestors store more g = some chain) : above ∈ chain := by
  induction hx using ReflTransGen.head_induction_on generalizing g more chain with
  | refl =>
      cases hg.symm.trans habove
      exact List.mem_of_mem_head? (by rw [head?_ancestors hchain]; rfl)
  | @head x y hstep _ ih =>
      obtain ⟨g', hg', rfl, hparent⟩ := hstep
      cases hg.symm.trans ((GrantStore.mem_all hkeyed).mp hg')
      rw [ancestors, hparent] at hchain
      cases more with
      | zero => cases hchain
      | succ more =>
          cases hy : store.get y with
          | none => simp [GrantStore.grant, hy] at hchain
          | some parent =>
              simp only [GrantStore.grant, hy, Option.map_eq_some_iff] at hchain
              obtain ⟨rest, hrest, rfl⟩ := hchain
              exact List.mem_cons_of_mem _ (ih hy hrest)

theorem grantIsLive_eq_false (hkeyed : store.Keyed) {x above nowMillis}
    (hx : Reaches store.all x id) (habove : store.get id = some above)
    (hdead : above.liveAt nowMillis = false) : grantIsLive store x nowMillis = false := by
  unfold grantIsLive
  split
  · rfl
  · next g hg =>
      rw [Option.any_eq_false]
      intro chain hchain
      rw [← Bool.not_eq_true, isOk_eq_true]
      rintro ⟨_, hok⟩
      obtain ⟨_, _, _, _, _, hlive⟩ := checkChain_eq_ok.mp hok
      have := hlive above (mem_ancestors_of_reaches hkeyed hx hg habove hchain)
      rw [hdead] at this
      cases this

/-! ## Revoking -/

variable {after : GrantStore} {nowMillis : Int}

/-- A revocation moves no grant and no parent link. -/
theorem parentLink_of_parents (hkeyed : store.Keyed) (hkeyed' : after.Keyed)
    (h : ∀ x, (after.get x).map (·.parent) = (store.get x).map (·.parent)) :
    ParentLink after.all = ParentLink store.all := by
  have hlink : ∀ {store : GrantStore}, store.Keyed → ∀ child parent,
      ParentLink store.all child parent ↔ (store.get child).map (·.parent) = some (some parent) := by
    intro store hkeyed child parent
    constructor
    · rintro ⟨g, hg, rfl, hparent⟩
      rw [(GrantStore.mem_all hkeyed).mp hg, Option.map_some, hparent]
    · intro hmap
      obtain ⟨g, hg, hparent⟩ := Option.map_eq_some_iff.mp hmap
      obtain rfl := hkeyed _ _ hg
      exact ⟨g, (GrantStore.mem_all hkeyed).mpr hg, rfl, hparent⟩
  funext child parent
  rw [hlink hkeyed', hlink hkeyed, h]

/-- **Revocation reaches every descendant.** In a store of at most 10000 grants, whatever their parent
links: revoking a grant returns each element of `revocation_closure` once, however many more rounds its
loop were given; these are the grants from which the revoked one is reached; and none of them is live from
the revocation on. Revoking a stored grant succeeds at every time that the store can hold. -/
theorem revocation_reaches_descendants (store : GrantStore) (hkeyed : store.Keyed)
    (hsize : store.entries.length ≤ 10000) (nowMillis : Int) (id : Uuid) :
    (∀ closure after, revokeGrant store nowMillis id = .ok (closure, after) →
      closure.Nodup ∧ (∀ x, x ∈ closure ↔ x ∈ Grant.revocationClosure store.all id) ∧
      (∀ x, x ∈ Grant.revocationClosure store.all id ↔ Reaches store.all x id) ∧
      (∀ more, revocationClosure after (maxRevocationClosure + more) [id] [id] = closure) ∧
      ∀ x ∈ closure, ∀ atMillis ≥ nowMillis, grantIsLive after x atMillis = false) ∧
    (store.contains id → GrantStore.fitsMicros nowMillis = .ok () →
      ∃ closure after, revokeGrant store nowMillis id = .ok (closure, after)) := by
  constructor
  · intro closure after hok
    obtain ⟨-, hclosure⟩ := revokeGrant_eq_ok.mp hok
    have heffect : Effect ⟨"", ∅⟩ store ⟨.revoke nowMillis id, .ok (.revoked closure)⟩ after :=
      effect_revoke hok
    cases heffect with
    | @revoked _ _ _ _ g at' hget hat _ hafter =>
      have hid : after.get id = some { g with revokedAtMillis := some at' } := by rw [hafter, if_pos rfl]
      have hkeyed' : after.Keyed := by
        intro x g' hg'
        rw [hafter] at hg'
        split at hg'
        · next heq =>
            cases hg'
            exact heq ▸ hkeyed id g hget
        · exact hkeyed x g' hg'
      have hparents : ∀ x, (after.get x).map (·.parent) = (store.get x).map (·.parent) := by
        intro x
        rw [hafter]
        split
        · next heq => rw [heq, hget]; rfl
        · rfl
      have hlinks := parentLink_of_parents hkeyed hkeyed' hparents
      have hsize' : after.all.length ≤ maxRevocationClosure := by
        have hkeys : after.keys ⊆ store.keys := by
          intro x hx
          rw [mem_keys_iff] at hx ⊢
          rw [← Option.isSome_map, ← hparents, Option.isSome_map]
          exact hx
        have := (after.nodup_keys.subperm hkeys).length_le
        simp only [OrderedMap.keys, List.length_map] at this
        rw [GrantStore.all, List.length_map]
        exact this.trans hsize
      have hwalk : Walk after id [] [id] := ⟨by simp, by simp, by simp [Reaches, ReflTransGen.refl], by simp⟩
      obtain ⟨found, hfound, hrounds⟩ := hwalk.ends
        (List.mem_map.mpr ⟨_, (GrantStore.mem_all hkeyed').mpr ((hkeyed' _ _ hid).symm ▸ hid), hkeyed' _ _ hid⟩)
        hsize' hsize'
      have hsame : found = closure := (hrounds 0).symm.trans hclosure
      subst hsame
      have hreach : ∀ x, x ∈ found ↔ Reaches store.all x id := by
        intro x
        rw [hfound.2 x, Reaches, hlinks]
      refine ⟨hfound.1, fun x => (hreach x).trans Grant.mem_revocationClosure.symm,
        fun x => Grant.mem_revocationClosure, hrounds, fun x hx atMillis hlater => ?_⟩
      refine grantIsLive_eq_false hkeyed' ((hfound.2 x).mp hx) hid ?_
      simp [Grant.liveAt]
      omega
  · intro hid hclock
    obtain ⟨g, hg⟩ := Option.isSome_iff_exists.mp hid
    have hrevoke : ∃ after, store.revoke id nowMillis = .ok after := by
      simp only [GrantStore.revoke, bind_eq_ok, okOr_eq_ok]
      by_cases hbefore : g.revokedAtMillis.any fun revoked => revoked ≤ nowMillis
      · exact ⟨store, g, hg, by rw [if_pos hbefore]; rfl⟩
      · exact ⟨_, g, hg, by rw [if_neg hbefore, hclock]; rfl⟩
    obtain ⟨after, hafter⟩ := hrevoke
    exact ⟨_, after, revokeGrant_eq_ok.mpr ⟨hafter, rfl⟩⟩

/-- A root, its child, and two grants that are each other's parent. -/
def sampleLinks : GrantStore :=
  .ofList [(0, sampleRoot 1), (1, { sampleRoot 1 with id := 1, parent := some 0 }),
    (2, { sampleRoot 1 with id := 2, parent := some 3 }), (3, { sampleRoot 1 with id := 3, parent := some 2 })]

theorem revocation_reaches_descendants_sample :
    ∃ closure after, revokeGrant sampleLinks 5 2 = .ok (closure, after) ∧
      ∀ x ∈ closure, ∀ atMillis ≥ 5, grantIsLive after x atMillis = false := by
  have hkeyed : sampleLinks.Keyed := by
    intro id g hg
    have hall : ∀ e ∈ sampleLinks.entries, e.2.id = e.1 := by decide
    exact hall _ (get_eq_some_iff.mp hg)
  obtain ⟨hreached, hsucceeds⟩ := revocation_reaches_descendants sampleLinks hkeyed (by decide) 5 2
  obtain ⟨closure, after, hok⟩ := hsucceeds (by decide) (by decide)
  exact ⟨closure, after, hok, (hreached closure after hok).2.2.2.2⟩

end Aseman.Authority
