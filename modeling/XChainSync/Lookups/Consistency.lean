import Mathlib.Data.List.TakeWhile
import XChainSync.Lookups.Paging

/-!
# When the ids of a replica are those of its chain

A replica whose rows are all of its own chain agrees with every source that holds its tip. Rows from
above the tip break this: no rollback deletes them, and INSERT IGNORE keeps them.
-/

namespace XChainSync.Lookups
set_option autoImplicit false

open Runs

/-! ### The table of a chain -/

section Rows
variable {blockIndex next : Nat} {texts : List String} {c v : Chain} {r r' : IdRow}

theorem bounds_of_mem_mint (h : r ∈ mint blockIndex next texts) :
    r.blockIndex = blockIndex ∧ next ≤ r.id ∧ r.id < next + texts.length := by
  induction texts generalizing next with
  | nil => simp [mint] at h
  | cons text texts ih =>
    rcases List.mem_cons.mp h with rfl | h
    · simp
    · obtain ⟨hblock, hlo, hhi⟩ := ih h
      simp only [List.length_cons]
      omega

theorem eq_of_mem_mint (h : r ∈ mint blockIndex next texts) (h' : r' ∈ mint blockIndex next texts)
    (hid : r.id = r'.id) : r = r' := by
  induction texts generalizing next with
  | nil => simp [mint] at h
  | cons text texts ih =>
    rcases List.mem_cons.mp h with rfl | h
    · rcases List.mem_cons.mp h' with rfl | h'
      · rfl
      · have hlo := (bounds_of_mem_mint h').2.1
        simp only at hid
        omega
    · rcases List.mem_cons.mp h' with rfl | h'
      · have hlo := (bounds_of_mem_mint h).2.1
        simp only at hid
        omega
      · exact ih h h'

theorem bounds_of_mem_rowsFrom (h : r ∈ rowsFrom blockIndex next c) :
    blockIndex ≤ r.blockIndex ∧ r.blockIndex < blockIndex + c.length ∧ next ≤ r.id := by
  induction c generalizing blockIndex next with
  | nil => simp [rowsFrom] at h
  | cons b c ih =>
    simp only [List.length_cons]
    rcases List.mem_append.mp h with h | h
    · obtain ⟨hblock, hlo, -⟩ := bounds_of_mem_mint h
      omega
    · obtain ⟨hlo, hhi, hid⟩ := ih h
      omega

theorem eq_of_mem_rowsFrom (h : r ∈ rowsFrom blockIndex next c)
    (h' : r' ∈ rowsFrom blockIndex next c) (hid : r.id = r'.id) : r = r' := by
  induction c generalizing blockIndex next with
  | nil => simp [rowsFrom] at h
  | cons b c ih =>
    -- the ids of a block are below those of the blocks after it
    rcases List.mem_append.mp h with h | h
    · rcases List.mem_append.mp h' with h' | h'
      · exact eq_of_mem_mint h h' hid
      · have hhi := (bounds_of_mem_mint h).2.2
        have hlo := (bounds_of_mem_rowsFrom h').2.2
        omega
    · rcases List.mem_append.mp h' with h' | h'
      · have hhi := (bounds_of_mem_mint h').2.2
        have hlo := (bounds_of_mem_rowsFrom h).2.2
        omega
      · exact ih h h'

theorem mem_rowsFrom_extend (hpre : c <+: v) (h : r ∈ rowsFrom blockIndex next c) :
    r ∈ rowsFrom blockIndex next v := by
  induction c generalizing v blockIndex next with
  | nil => simp [rowsFrom] at h
  | cons b c ih =>
    obtain ⟨w, rfl⟩ := hpre
    rcases List.mem_append.mp h with h | h
    · exact List.mem_append_left _ h
    · exact List.mem_append_right _ (ih (List.prefix_append c w) h)

theorem mem_rowsFrom_of_lt (hpre : c <+: v) (h : r ∈ rowsFrom blockIndex next v)
    (hlt : r.blockIndex < blockIndex + c.length) : r ∈ rowsFrom blockIndex next c := by
  induction c generalizing v blockIndex next with
  | nil =>
    have hlo := (bounds_of_mem_rowsFrom h).1
    simp only [List.length_nil] at hlt
    omega
  | cons b c ih =>
    obtain ⟨w, rfl⟩ := hpre
    rcases List.mem_append.mp h with h | h
    · exact List.mem_append_left _ h
    · refine List.mem_append_right _ (ih (List.prefix_append c w) h ?_)
      simp only [List.length_cons] at hlt
      omega

theorem mem_rowsOf_extend (hpre : c <+: v) (h : r ∈ rowsOf c) : r ∈ rowsOf v :=
  mem_rowsFrom_extend hpre h

theorem mem_rowsOf_of_lt (hpre : c <+: v) (h : r ∈ rowsOf v) (hlt : r.blockIndex < c.length) :
    r ∈ rowsOf c :=
  mem_rowsFrom_of_lt hpre h (by simpa using hlt)

theorem blockIndex_lt_length (h : r ∈ rowsOf c) : r.blockIndex < c.length := by
  simpa using (bounds_of_mem_rowsFrom h).2.1

/-- An id names one row of a chain. -/
theorem textOf_of_mem (h : r ∈ rowsOf c) : textOf c r.id = some r.text := by
  unfold textOf
  cases hfind : (rowsOf c).find? (·.id = r.id) with
  | none =>
    have hne := List.find?_eq_none.mp hfind r h
    simp at hne
  | some r' =>
    have hmem := List.mem_of_find?_eq_some hfind
    have hid : r'.id = r.id := by simpa using List.find?_some hfind
    simp [eq_of_mem_rowsFrom hmem h hid]

end Rows

theorem mem_insertIgnore {held rows : List IdRow} {r : IdRow} (h : r ∈ insertIgnore held rows) :
    r ∈ held ∨ r ∈ rows := by
  induction rows generalizing held with
  | nil => exact .inl h
  | cons row rows ih =>
    simp only [insertIgnore, List.foldl_cons] at h
    rcases ih h with h | h
    · split at h
      · exact .inl h
      · rcases List.mem_append.mp h with h | h
        · exact .inl h
        · exact .inr (List.mem_cons.mpr (.inl (List.mem_singleton.mp h)))
    · exact .inr (List.mem_cons_of_mem _ h)

/-- A page carries rows of the source, none of them above its bound. -/
theorem mem_page {c : Chain} {afterId limit : Nat} {maxBlock : Option Nat} {r : IdRow}
    (h : r ∈ (streamTableRowsById c afterId limit maxBlock).rows) :
    r ∈ rowsOf c ∧ ∀ m, maxBlock = some m → r.blockIndex ≤ m := by
  have hfound : ∀ r, r ∈ ((rowsOf c).filter (afterId < ·.id)).take (max 1 (min rowsPageMax limit)) →
      r ∈ rowsOf c := fun r hr => List.mem_of_mem_filter (List.mem_of_mem_take hr)
  cases maxBlock with
  | none => exact ⟨hfound r h, by simp⟩
  | some m =>
    refine ⟨hfound r ((List.takeWhile_subset _) h), ?_⟩
    rintro _ ⟨⟩
    simpa using List.mem_takeWhile_imp h

theorem mem_payloadRows {view : Chain} {blockIndex : Nat} {refIds : List Nat} {r : IdRow}
    (h : r ∈ payloadRows view blockIndex refIds) :
    r ∈ rowsOf view ∧ (r.id ∈ refIds ∨ r.blockIndex = blockIndex) := by
  simpa [payloadRows] using h

/-! ### The invariant -/

namespace System

/-- A row is held, or in a lookup page in flight. -/
def Carries (t : System) (r : IdRow) : Prop :=
  r ∈ t.rows ∨ ∃ p ∈ t.passes, ∃ page, p.page = some page ∧ r ∈ page.rows

/-- What the rows of a replica are rows of: its own chain once it has one, and until then the chain
of the source. -/
def basis (t : System) : Chain :=
  match t.stage with
  | .following => t.chain
  | _ => t.source

structure Inv (t : System) : Prop where
  carried : ∀ r, t.Carries r → r ∈ rowsOf t.basis
  empty : t.stage ≠ .following → t.chain = []
  window : ∀ w, t.stage = .window w → t.passes = [] ∧ ∀ r ∈ t.rows, r ∈ rowsOf w
  payloads : ∀ e ∈ t.payloads, ∀ r ∈ e.rows, r ∈ rowsOf e.chain
  ranges : ∀ g ∈ t.ranges, ∀ r ∈ g.rows, r ∈ rowsOf g.chain

/-- A step that brings in no row from above the replica's tip or from another branch:
a page is served by a source that holds the tip, within it; no block of which a row has been paged
is orphaned before the window of a bootstrap lands; no rollback goes below a row in flight; a
payload holds no row from above its block; and blocks and ranges extend the tip. -/
def Aligned (t : System) : Event → Prop
  | .fetchLookupPage i _ => t.stage = .following → ∀ p, t.passes[i]? = some p →
    t.chain <+: t.source ∧ ∃ m, p.maxBlock = some m ∧ m < t.chain.length
  | .reorg blockIndex => t.stage ≠ .following → ∀ r, t.Carries r → r.blockIndex < blockIndex
  | .handleReorg blockIndex => t.rollsBack blockIndex → t.stage = .following →
    ∀ p ∈ t.passes, ∀ page, p.page = some page → ∀ r ∈ page.rows, r.blockIndex < blockIndex
  | .buildBlockPayload blockIndex refIds =>
    ∀ r ∈ rowsOf t.source, r.id ∈ refIds → r.blockIndex ≤ blockIndex
  | .applyBlock i => ∀ e, t.payloads[i]? = some e → t.chain <+: e.chain
  | .applyRange i => ∀ g, t.ranges[i]? = some g → t.chain <+: g.chain
  | _ => True

/-- A replica whose tip the source holds has the source's text for every id at or below it. -/
def Consistent (t : System) : Prop :=
  t.chain <+: t.source → ∀ r ∈ t.rows, r.blockIndex < t.chain.length →
    textOf t.source r.id = some r.text

variable {t : System}

theorem Inv.consistent (h : t.Inv) : t.Consistent := by
  intro hpre r hr hlt
  have hmem := h.carried r (.inl hr)
  cases hstage : t.stage with
  | following =>
    simp only [basis, hstage] at hmem
    exact textOf_of_mem (mem_rowsOf_extend hpre hmem)
  | paging => simp [h.empty (by simp [hstage])] at hlt
  | window w => simp [h.empty (by simp [hstage])] at hlt

/-! ### Source -/

theorem inv_commit (h : t.Inv) (b : Block) : (t.step (.commit b)).Inv := by
  refine ⟨fun r hr => ?_, h.empty, h.window, h.payloads, h.ranges⟩
  have hmem := h.carried r hr
  cases hstage : t.stage with
  | following => simpa [basis, step, hstage] using hmem
  | paging =>
    simp only [basis, step, hstage] at hmem ⊢
    exact mem_rowsOf_extend (List.prefix_append _ _) hmem
  | window w =>
    simp only [basis, step, hstage] at hmem ⊢
    exact mem_rowsOf_extend (List.prefix_append _ _) hmem

/-- Rows below a cut are rows of what is left. -/
theorem mem_rowsOf_take {c : Chain} {r : IdRow} {n : Nat} (h : r ∈ rowsOf c) (hlt : r.blockIndex < n) :
    r ∈ rowsOf (c.take n) := by
  refine mem_rowsOf_of_lt (List.take_prefix n c) h ?_
  have hlen := blockIndex_lt_length h
  simp only [List.length_take]
  omega

theorem inv_reorg (h : t.Inv) {blockIndex : Nat} (he : t.Aligned (.reorg blockIndex)) :
    (t.step (.reorg blockIndex)).Inv := by
  refine ⟨fun r hr => ?_, h.empty, h.window, h.payloads, h.ranges⟩
  have hmem := h.carried r hr
  cases hstage : t.stage with
  | following => simpa [basis, step, hstage] using hmem
  | paging =>
    simp only [basis, step, hstage] at hmem ⊢
    exact mem_rowsOf_take hmem (he (by simp [hstage]) r hr)
  | window w =>
    simp only [basis, step, hstage] at hmem ⊢
    exact mem_rowsOf_take hmem (he (by simp [hstage]) r hr)

theorem inv_buildBlockPayload (h : t.Inv) {blockIndex : Nat} {refIds : List Nat}
    (he : t.Aligned (.buildBlockPayload blockIndex refIds)) :
    (t.step (.buildBlockPayload blockIndex refIds)).Inv := by
  simp only [step]
  split
  · refine ⟨h.carried, h.empty, h.window, fun e hmem r hr => ?_, h.ranges⟩
    rcases List.mem_append.mp hmem with hmem | hmem
    · exact h.payloads e hmem r hr
    · obtain rfl := List.mem_singleton.mp hmem
      obtain ⟨hview, href⟩ := mem_payloadRows hr
      refine mem_rowsOf_take hview (Nat.lt_succ_of_le ?_)
      rcases href with href | hown
      · exact he r hview href
      · exact Nat.le_of_eq hown
  · exact h

/-! ### Lookup passes -/

theorem inv_startPass (h : t.Inv) (fromZero : Bool) : (t.startPass fromZero).Inv := by
  unfold startPass
  split
  · exact h
  · rename_i hstage
    refine ⟨fun r hr => h.carried r ?_, h.empty, fun w hw => absurd hw (hstage w), h.payloads,
      h.ranges⟩
    rcases hr with hr | ⟨p, hp, page, hpage, hr⟩
    · exact .inl hr
    · rcases List.mem_append.mp hp with hp | hp
      · exact .inr ⟨p, hp, page, hpage, hr⟩
      · obtain rfl := List.mem_singleton.mp hp
        simp at hpage

/-- What a page brings is of the basis. -/
theorem mem_basis_of_page {i limit : Nat} {p : Pass} (hp : t.passes[i]? = some p)
    (he : t.Aligned (.fetchLookupPage i limit)) {r : IdRow}
    (hr : r ∈ (streamTableRowsById t.source p.afterId limit p.maxBlock).rows) :
    r ∈ rowsOf t.basis := by
  obtain ⟨hsource, hbound⟩ := mem_page hr
  cases hstage : t.stage with
  | following =>
    obtain ⟨hpre, m, hm, hlt⟩ := he hstage p hp
    simp only [basis, hstage]
    exact mem_rowsOf_of_lt hpre hsource (Nat.lt_of_le_of_lt (hbound m hm) hlt)
  | paging => simpa [basis, hstage] using hsource
  | window w => simpa [basis, hstage] using hsource

theorem inv_fetchLookupPage (h : t.Inv) {i limit : Nat} (he : t.Aligned (.fetchLookupPage i limit)) :
    (t.fetchLookupPage i limit).Inv := by
  unfold fetchLookupPage
  split
  · exact h
  · rename_i p hp
    split
    · exact h
    · refine ⟨fun r hr => ?_, h.empty, fun w hw => ?_, h.payloads, h.ranges⟩
      · rcases hr with hr | ⟨q, hq, page, hpage, hr⟩
        · exact h.carried r (.inl hr)
        · rcases List.mem_or_eq_of_mem_set hq with hq | rfl
          · exact h.carried r (.inr ⟨q, hq, page, hpage, hr⟩)
          · obtain rfl := Option.some.inj hpage
            exact mem_basis_of_page hp he hr
      · simp [(h.window w hw).1] at hp

theorem inv_applyLookupPage (h : t.Inv) (i : Nat) : (t.applyLookupPage i).Inv := by
  unfold applyLookupPage
  split
  · exact h
  · rename_i p hp
    split
    · exact h
    · rename_i page hpage
      have hrows : ∀ r ∈ insertIgnore t.rows page.rows, t.Carries r := by
        intro r hr
        rcases mem_insertIgnore hr with hr | hr
        · exact .inl hr
        · exact .inr ⟨p, List.mem_of_getElem? hp, page, hpage, hr⟩
      have hwindow : ∀ w, t.stage ≠ .window w := by
        intro w hw
        simp [(h.window w hw).1] at hp
      dsimp only
      split
      · refine ⟨fun r hr => h.carried r ?_, h.empty, fun w hw => absurd hw (hwindow w), h.payloads,
          h.ranges⟩
        rcases hr with hr | ⟨q, hq, page', hpage', hr⟩
        · exact hrows r hr
        · rcases List.mem_or_eq_of_mem_set hq with hq | rfl
          · exact .inr ⟨q, hq, page', hpage', hr⟩
          · simp at hpage'
      · refine ⟨fun r hr => h.carried r ?_, h.empty, fun w hw => absurd hw (hwindow w), h.payloads,
          h.ranges⟩
        rcases hr with hr | ⟨q, hq, page', hpage', hr⟩
        · exact hrows r hr
        · exact .inr ⟨q, List.mem_of_mem_eraseIdx hq, page', hpage', hr⟩

/-! ### Bootstrap -/

theorem inv_fetchBootstrapWindow (h : t.Inv) : t.fetchBootstrapWindow.Inv := by
  unfold fetchBootstrapWindow
  split
  · rename_i hready
    obtain ⟨hstage, hpasses⟩ := hready
    have hsource : ∀ r, t.Carries r → r ∈ rowsOf t.source := by
      intro r hr
      simpa [basis, hstage] using h.carried r hr
    refine ⟨hsource, fun _ => h.empty (by simp [hstage]), ?_, h.payloads, h.ranges⟩
    rintro _ ⟨⟩
    exact ⟨hpasses, fun r hr => hsource r (.inl hr)⟩
  · exact h

theorem inv_applyBootstrapWindow (h : t.Inv) : t.applyBootstrapWindow.Inv := by
  unfold applyBootstrapWindow
  split
  · rename_i w hstage
    obtain ⟨hpasses, hrows⟩ := h.window w hstage
    refine ⟨fun r hr => ?_, by simp, by simp, h.payloads, h.ranges⟩
    rcases hr with hr | ⟨p, hp, -⟩
    · exact hrows r hr
    · simp [hpasses] at hp
  · exact h

theorem inv_retryBootstrap (h : t.Inv) : t.retryBootstrap.Inv := by
  unfold retryBootstrap
  split
  · rename_i w hstage
    refine ⟨fun r hr => ?_, fun _ => h.empty (by simp [hstage]), by simp, h.payloads, h.ranges⟩
    have hmem := h.carried r hr
    simpa [basis, hstage] using hmem
  · exact h

/-! ### Blocks, ranges and rollbacks -/

/-- The replica moves to a chain that extends its own. -/
theorem inv_extend (h : t.Inv) (hstage : t.stage = .following) {c : Chain} (hpre : t.chain <+: c)
    {rows : List IdRow} (hrows : ∀ r ∈ rows, r ∈ rowsOf c) {tip : Option Int}
    {payloads : List Payload} (hpayloads : ∀ e ∈ payloads, e ∈ t.payloads)
    {ranges : List Range} (hranges : ∀ g ∈ ranges, g ∈ t.ranges) :
    Inv { t with
      chain := c
      rows := insertIgnore t.rows rows
      lastAppliedBlock := tip
      payloads := payloads
      ranges := ranges } := by
  have hold : ∀ r, t.Carries r → r ∈ rowsOf c := by
    intro r hr
    have hmem := h.carried r hr
    simp only [basis, hstage] at hmem
    exact mem_rowsOf_extend hpre hmem
  refine ⟨fun r hr => ?_, fun hne => absurd hstage hne, fun w hw => ?_,
    fun e he => h.payloads e (hpayloads e he), fun g hg => h.ranges g (hranges g hg)⟩
  · simp only [basis, hstage]
    rcases hr with hr | hr
    · rcases mem_insertIgnore hr with hr | hr
      · exact hold r (.inl hr)
      · exact hrows r hr
    · exact hold r (.inr hr)
  · simp [hstage] at hw

theorem inv_applyBlock (h : t.Inv) {i : Nat} (he : t.Aligned (.applyBlock i)) :
    (t.applyBlock i).Inv := by
  unfold applyBlock
  split
  · exact h
  · rename_i e hi
    have hrest : ∀ e' ∈ t.payloads.eraseIdx i, e' ∈ t.payloads := fun _ => List.mem_of_mem_eraseIdx
    dsimp only
    split
    · rename_i hready
      split
      · exact ⟨h.carried, h.empty, h.window, fun e' he' => h.payloads e' (hrest e' he'), h.ranges⟩
      · exact inv_extend h hready.1 (he e hi) (h.payloads e (List.mem_of_getElem? hi)) hrest
          (fun _ hg => hg)
    · exact ⟨h.carried, h.empty, h.window, fun e' he' => h.payloads e' (hrest e' he'), h.ranges⟩

theorem inv_applyRange (h : t.Inv) {i : Nat} (he : t.Aligned (.applyRange i)) :
    (t.applyRange i).Inv := by
  unfold applyRange
  split
  · exact h
  · rename_i g hi
    have hrest : ∀ g' ∈ t.ranges.eraseIdx i, g' ∈ t.ranges := fun _ => List.mem_of_mem_eraseIdx
    dsimp only
    split
    · rename_i hready
      exact inv_extend h hready.1 (he g hi) (h.ranges g (List.mem_of_getElem? hi)) (fun _ he' => he')
        hrest
    · exact ⟨h.carried, h.empty, h.window, h.payloads, fun g' hg' => h.ranges g' (hrest g' hg')⟩

theorem inv_fetchRange (h : t.Inv) (skipLookups : Bool) : (t.fetchRange skipLookups).Inv := by
  refine ⟨h.carried, h.empty, h.window, h.payloads, fun g hg r hr => ?_⟩
  rcases List.mem_append.mp hg with hg | hg
  · exact h.ranges g hg r hr
  · obtain rfl := List.mem_singleton.mp hg
    cases skipLookups with
    | false => exact hr
    | true => simp at hr

theorem inv_handleReorg (h : t.Inv) {blockIndex : Nat} (he : t.Aligned (.handleReorg blockIndex)) :
    (t.handleReorg blockIndex).Inv := by
  unfold handleReorg
  split
  · rename_i hrolls
    refine ⟨fun r hr => ?_, fun hne => ?_, fun w hw => ?_, h.payloads, h.ranges⟩
    · have hcarried : t.Carries r := by
        rcases hr with hr | hr
        · exact .inl (List.mem_of_mem_filter hr)
        · exact .inr hr
      have hmem := h.carried r hcarried
      cases hstage : t.stage with
      | following =>
        simp only [basis, hstage] at hmem ⊢
        refine mem_rowsOf_take hmem ?_
        rcases hr with hr | ⟨p, hp, page, hpage, hr⟩
        · simpa using List.of_mem_filter hr
        · exact he hrolls hstage p hp page hpage r hr
      | paging => simpa [basis, hstage] using hmem
      | window w => simpa [basis, hstage] using hmem
    · simp [h.empty hne]
    · obtain ⟨hpasses, hrows⟩ := h.window w hw
      exact ⟨hpasses, fun r hr => hrows r (List.mem_of_mem_filter hr)⟩
  · exact h

/-! ### Runs -/

theorem inv_step (h : t.Inv) {e : Event} (he : t.Aligned e) : (t.step e).Inv := by
  cases e with
  | commit b => exact inv_commit h b
  | reorg blockIndex => exact inv_reorg h he
  | buildBlockPayload blockIndex refIds => exact inv_buildBlockPayload h he
  | syncLookupTablesPaged fromZero => exact inv_startPass h fromZero
  | fetchLookupPage i limit => exact inv_fetchLookupPage h he
  | applyLookupPage i => exact inv_applyLookupPage h i
  | fetchBootstrapWindow => exact inv_fetchBootstrapWindow h
  | applyBootstrapWindow => exact inv_applyBootstrapWindow h
  | retryBootstrap => exact inv_retryBootstrap h
  | applyBlock i => exact inv_applyBlock h he
  | fetchRange skipLookups => exact inv_fetchRange h skipLookups
  | applyRange i => exact inv_applyRange h he
  | advanceTip =>
    simp only [step]
    split
    · exact ⟨h.carried, h.empty, h.window, h.payloads, h.ranges⟩
    · exact h
  | handleReorg blockIndex => exact inv_handleReorg h he

def Next (t : System) (e : Event) (u : System) : Prop := u = t.step e

/-- A replica with nothing in it, over any source. -/
def empty (source : Chain) : System where
  source := source
  chain := []
  lastAppliedBlock := none
  rows := []
  stage := .paging
  passes := []
  payloads := []
  ranges := []

theorem inv_empty (source : Chain) : (empty source).Inv :=
  ⟨by simp [Carries, empty], fun _ => rfl, by simp [empty], by simp [empty], by simp [empty]⟩

def genesis : Block := ⟨0, ["treasury"]⟩

/-- Two blocks on the genesis that issue id 2 with different texts, and one above the first. -/
def orphan : Block := ⟨1, ["alice"]⟩

def heir : Block := ⟨2, ["bob"]⟩

def upper : Block := ⟨3, ["carol"]⟩

/-- A whole lookup pass of one page. -/
def pass (fromZero : Bool) : List Event :=
  [.syncLookupTablesPaged fromZero, .fetchLookupPage 0 50000, .applyLookupPage 0]

def bootstrap : List Event := pass false ++ [.fetchBootstrapWindow, .applyBootstrapWindow]

/-- The first pass of a bootstrap has no bound, and the source reorgs before the window. -/
def reorgedBootstrap : List Event :=
  pass false ++ [.reorg 1, .commit heir, .fetchBootstrapWindow, .applyBootstrapWindow]

/-- A page is served before a rollback and applied after it. -/
def crossedPage : List Event :=
  bootstrap ++ [.syncLookupTablesPaged true, .fetchLookupPage 0 50000, .reorg 1, .handleReorg 1,
    .applyLookupPage 0, .commit heir, .buildBlockPayload 1 [], .applyBlock 0]

/-- A block is read from a view with a block above it, and a column of its payload holds the id that
the upper block issued. The reorg is above the replica's tip. -/
def overfetched : List Event :=
  bootstrap ++ [.commit orphan, .commit upper, .buildBlockPayload 1 [3], .applyBlock 0, .reorg 2,
    .handleReorg 2, .commit heir, .buildBlockPayload 2 [], .applyBlock 0]

end System

end XChainSync.Lookups
