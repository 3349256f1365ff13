import XChainSync.Checkpoint.RotationSoundness

/-!
# The page size of the range source

`bindingSteps` looks for superseding rows in one page only, so a superseded checkpoint is dropped
or attested according to where the pages end. The verdict is that of a walk row by row as long as
no row it comes to is superseded within the range.
-/

namespace XChainSync.Checkpoint
open Client (JsVal)
set_option autoImplicit false

variable {N : Type} [LinearOrder N]

namespace Js
variable {js : Js N} {a b c : JsVal}

theorem lt_iff : js.lt a b = true ↔ ∃ x y, js.number a = some x ∧ js.number b = some y ∧ x < y := by
  unfold Js.lt numLt
  cases js.number a with
  | none => simp
  | some x =>
    cases js.number b with
    | none => simp
    | some y => simp

theorem le_iff : js.le a b = true ↔ ∃ x y, js.number a = some x ∧ js.number b = some y ∧ x ≤ y := by
  unfold Js.le numLe
  cases js.number a with
  | none => simp
  | some x =>
    cases js.number b with
    | none => simp
    | some y => simp

theorem lt_trans (hab : js.lt a b = true) (hbc : js.lt b c = true) : js.lt a c = true := by
  obtain ⟨x, y, ha, hb, hxy⟩ := lt_iff.mp hab
  obtain ⟨y', z, hb', hc, hyz⟩ := lt_iff.mp hbc
  obtain rfl := Option.some.inj (hb.symm.trans hb')
  exact lt_iff.mpr ⟨x, z, ha, hc, hxy.trans hyz⟩

theorem lt_of_lt_of_le (hab : js.lt a b = true) (hbc : js.le b c = true) : js.lt a c = true := by
  obtain ⟨x, y, ha, hb, hxy⟩ := lt_iff.mp hab
  obtain ⟨y', z, hb', hc, hyz⟩ := le_iff.mp hbc
  obtain rfl := Option.some.inj (hb.symm.trans hb')
  exact lt_iff.mpr ⟨x, z, ha, hc, hxy.trans_le hyz⟩

theorem not_le_of_lt (hab : js.lt a b = true) : js.le b a = false := by
  rw [Bool.eq_false_iff]
  intro hba
  obtain ⟨x, y, ha, hb, hxy⟩ := lt_iff.mp hab
  obtain ⟨y', x', hb', ha', hyx⟩ := le_iff.mp hba
  obtain rfl := Option.some.inj (ha.symm.trans ha')
  obtain rfl := Option.some.inj (hb.symm.trans hb')
  exact absurd hxy (not_lt.mpr hyx)

theorem lt_irrefl : js.lt a a = false := by
  rw [Bool.eq_false_iff]
  intro h
  obtain ⟨x, y, hx, hy, hxy⟩ := lt_iff.mp h
  obtain rfl := Option.some.inj (hx.symm.trans hy)
  exact absurd hxy (by simp)

theorem lt_asymm (hab : js.lt a b = true) : js.lt b a = false := by
  rw [Bool.eq_false_iff]
  intro hba
  have := lt_trans hab hba
  simp [lt_irrefl] at this

end Js

/-- The range route: the first `limit` rows with a height in the range, in height order. -/
def pagedSource (js : Js N) (limit : Nat) (rows : List Body) : RangeSource :=
  fun _ fromBlock toBlock => .checkpoints
    (((rows.filter fun b => js.le fromBlock b.block_index && js.le b.block_index toBlock).take
      limit).map some)

/-- The rows past a height, up to the checkpoint's. -/
def rowsPast (js : Js N) (rows : List Body) (cp trusted : Body) : List Body :=
  rows.filter fun b => js.lt trusted.block_index b.block_index && js.le b.block_index cp.block_index

/-- Rows in height order, at most one a height; heights are integers, so `h + 1` is the next. -/
structure RangeRows (js : Js N) (rows : List Body) (seed : Body) : Prop where
  number : ∀ b ∈ rows, isNumber b.block_index = true
  ordered : rows.Pairwise fun a b => js.lt a.block_index b.block_index = true
  integral : ∀ a ∈ seed :: rows, ∀ b ∈ rows,
    js.le (js.plusOne a.block_index) b.block_index = js.lt a.block_index b.block_index

inductive Verdict.Kind where
  | ok
  | wait
  | divergence
  deriving DecidableEq, Repr

/-- The `verdict` field. -/
def Verdict.kind : Verdict → Kind
  | ok _ => .ok
  | wait _ => .wait
  | divergence _ _ => .divergence

/-! ### Superseded rows -/

/-- `c` is a superseding row that a page drops `step` for. -/
def supersedes (js : Js N) (c step : Body) : Bool :=
  !c.supersedes_from.nullish && !numLe (js.number c.checkpoint_seq) (js.number step.checkpoint_seq) &&
    !numLt (js.number step.block_index) (js.number c.supersedes_from)

theorem nextLowest_isSome {js : Js N} {step c : Body} {lowest : Option (Option N)} :
    (nextLowest js step lowest c).isSome = true ↔
      lowest.isSome = true ∨ supersedes js c step = true := by
  unfold nextLowest supersedes
  dsimp only
  split
  · rename_i hnull
    simp [hnull]
  · rename_i hnull
    split
    · rename_i hskip
      rcases Bool.or_eq_true_iff.mp hskip with hseq | hblock
      · simp [hseq]
      · simp [hblock]
    · rename_i hskip
      simp only [Bool.or_eq_true, not_or, Bool.not_eq_true] at hskip hnull
      cases lowest with
      | none => simp [hskip.1, hskip.2, hnull]
      | some least =>
        dsimp only
        split <;> simp

theorem isNonBindingStep_iff {js : Js N} {step : Body} {chain : List Body} :
    isNonBindingStep js step chain = true ↔ ∃ c ∈ chain, supersedes js c step = true := by
  -- over the fold: a seq is found already, or a later row gives one
  have hfold : ∀ lowest, (chain.foldl (nextLowest js step) lowest).isSome = true ↔
      lowest.isSome = true ∨ ∃ c ∈ chain, supersedes js c step = true := by
    induction chain with
    | nil => simp
    | cons c chain ih =>
      intro lowest
      rw [List.foldl_cons, ih, nextLowest_isSome, or_assoc]
      simp
  unfold isNonBindingStep supersedingSeqFor
  simpa using hfold none

/-- A row that nothing in the range supersedes stays binding in every page. -/
theorem binding_of_subset {js : Js N} {step : Body} {page range : List Body}
    (hsub : ∀ c ∈ page, c ∈ range) (h : isNonBindingStep js step range = false) :
    isNonBindingStep js step page = false := by
  rw [Bool.eq_false_iff] at h ⊢
  intro hpage
  obtain ⟨c, hc, hs⟩ := isNonBindingStep_iff.mp hpage
  exact h (isNonBindingStep_iff.mpr ⟨c, hsub c hc, hs⟩)

section Walk
variable {vf : Verifier N} {r : Replica} {cp : Body}

/-- Rows that follow a frontier in order, none past the checkpoint. -/
structure Ascends (js : Js N) (cp trusted : Body) (rows : List Body) : Prop where
  number : ∀ b ∈ rows, isNumber b.block_index = true
  ordered : (trusted :: rows).Pairwise fun a b => js.lt a.block_index b.block_index = true
  within : ∀ b ∈ rows, js.le b.block_index cp.block_index = true

theorem Ascends.tail {js : Js N} {trusted next : Body} {rows : List Body}
    (h : Ascends js cp trusted (next :: rows)) : Ascends js cp next rows where
  number := fun b hb => h.number b (List.mem_cons_of_mem _ hb)
  ordered := (List.pairwise_cons.mp h.ordered).2
  within := fun b hb => h.within b (List.mem_cons_of_mem _ hb)

theorem Ascends.left {js : Js N} {trusted : Body} {xs ys : List Body}
    (h : Ascends js cp trusted (xs ++ ys)) : Ascends js cp trusted xs where
  number := fun b hb => h.number b (List.mem_append_left _ hb)
  ordered := by
    have hall : ((trusted :: xs) ++ ys).Pairwise _ := h.ordered
    exact (List.pairwise_append.mp hall).1
  within := fun b hb => h.within b (List.mem_append_left _ hb)

/-- The first of the rows past a frontier is not skipped, and the walk goes on past it as long as
more rows follow. -/
theorem walkSteps_cons {trusted next : Body} {steps : List Body} {advanced : Bool}
    (h : Ascends vf.js cp trusted (next :: steps)) :
    walkSteps vf r cp (next :: steps) trusted advanced =
      match attestRotationStep vf r next trusted with
      | some stop => .error stop
      | none => if vf.js.le cp.block_index next.block_index then .ok (next, true)
        else walkSteps vf r cp steps next true := by
  have hnext := (List.pairwise_cons.mp h.ordered).1 next List.mem_cons_self
  have hskip : ¬ (!isNumber next.block_index ||
      vf.js.le next.block_index trusted.block_index) = true := by
    simp [h.number next List.mem_cons_self, Js.not_le_of_lt hnext]
  rewrite [walkSteps, if_neg hskip]
  cases attestRotationStep vf r next trusted <;> rfl

theorem walkSteps_error_append {xs ys : List Body} {trusted : Body} {advanced : Bool} {stop : Verdict}
    (h : walkSteps vf r cp xs trusted advanced = .error stop) :
    walkSteps vf r cp (xs ++ ys) trusted advanced = .error stop := by
  induction xs generalizing trusted advanced with
  | nil => simp [walkSteps] at h
  | cons next xs ih =>
    rw [List.cons_append, walkSteps]
    rw [walkSteps] at h
    split at h
    · rename_i hskip
      rw [if_pos hskip]
      exact ih h
    · rename_i hskip
      rw [if_neg hskip]
      split at h
      · exact h
      · split at h
        · simp at h
        · rename_i hcp
          rw [if_neg hcp]
          exact ih h

/-- Rows followed by further rows of the range: the walk over both is one walk after the other. -/
theorem walkSteps_append {xs ys : List Body} {trusted : Body} {advanced : Bool}
    (h : Ascends vf.js cp trusted (xs ++ ys)) (hys : ys ≠ []) :
    walkSteps vf r cp (xs ++ ys) trusted advanced =
      match walkSteps vf r cp xs trusted advanced with
      | .error stop => .error stop
      | .ok (frontier, moved) => walkSteps vf r cp ys frontier moved := by
  induction xs generalizing trusted advanced with
  | nil => rfl
  | cons next xs ih =>
    have hleft : Ascends vf.js cp trusted (next :: xs) := h.left
    rw [List.cons_append] at h ⊢
    rw [walkSteps_cons h, walkSteps_cons hleft]
    cases hattest : attestRotationStep vf r next trusted with
    | some stop => rfl
    | none =>
      -- a row after `next` lies past it and within the range, so `next` is below the checkpoint
      have hbelow : vf.js.le cp.block_index next.block_index = false := by
        obtain ⟨y, hy⟩ := List.exists_mem_of_ne_nil ys hys
        have hmem : y ∈ xs ++ ys := List.mem_append_right _ hy
        have hpast := (List.pairwise_cons.mp h.tail.ordered).1 y hmem
        have hwithin := h.within y (List.mem_cons_of_mem _ hmem)
        exact Js.not_le_of_lt (Js.lt_of_lt_of_le hpast hwithin)
      simp only [hbelow, Bool.false_eq_true, if_false]
      exact ih h.tail

/-- A walk that does not stop ends at the last row. -/
theorem walkSteps_last {steps : List Body} {trusted frontier : Body} {advanced moved : Bool}
    (h : Ascends vf.js cp trusted steps)
    (hw : walkSteps vf r cp steps trusted advanced = .ok (frontier, moved)) (hne : steps ≠ []) :
    steps.getLast? = some frontier ∧ moved = true := by
  induction steps generalizing trusted advanced with
  | nil => exact absurd rfl hne
  | cons next steps ih =>
    rw [walkSteps_cons h] at hw
    split at hw
    · simp at hw
    · by_cases hsteps : steps = []
      · subst hsteps
        split at hw
        · obtain ⟨rfl, rfl⟩ := Prod.mk.inj (Except.ok.inj hw)
          exact ⟨rfl, rfl⟩
        · obtain ⟨rfl, rfl⟩ := Prod.mk.inj (Except.ok.inj hw)
          exact ⟨rfl, rfl⟩
      · split at hw
        · rename_i hcp
          obtain ⟨y, hy⟩ := List.exists_mem_of_ne_nil steps hsteps
          have hpast := (List.pairwise_cons.mp h.tail.ordered).1 y hy
          have hwithin := h.within y (List.mem_cons_of_mem _ hy)
          have := Js.not_le_of_lt (Js.lt_of_lt_of_le hpast hwithin)
          rw [this] at hcp
          simp at hcp
        · obtain ⟨hlast, hmoved⟩ := ih h.tail hw hsteps
          refine ⟨?_, hmoved⟩
          rw [List.getLast?_cons, hlast]
          simp

end Walk

/-! ### One page after the other -/

section Pages
variable {vf : Verifier N} {r : Replica} {cp seed : Body} {rows : List Body}

theorem RangeRows.page_eq (h : RangeRows vf.js rows seed) {trusted : Body}
    (ht : trusted ∈ seed :: rows) (limit request : Nat) :
    pagedSource vf.js limit rows request (vf.js.plusOne trusted.block_index) cp.block_index =
      .checkpoints (((rowsPast vf.js rows cp trusted).take limit).map some) := by
  unfold pagedSource rowsPast
  have hfilter : rows.filter (fun b => vf.js.le (vf.js.plusOne trusted.block_index) b.block_index &&
      vf.js.le b.block_index cp.block_index) = rows.filter (fun b =>
        vf.js.lt trusted.block_index b.block_index && vf.js.le b.block_index cp.block_index) := by
    apply List.filter_congr
    intro b hb
    rw [h.integral trusted ht b hb]
  rw [hfilter]

theorem RangeRows.ascends (h : RangeRows vf.js rows seed) (trusted : Body) :
    Ascends vf.js cp trusted (rowsPast vf.js rows cp trusted) where
  number := fun b hb => h.number b (List.mem_of_mem_filter hb)
  ordered := by
    refine List.pairwise_cons.mpr ⟨?_, h.ordered.filter _⟩
    intro b hb
    have := List.of_mem_filter hb
    simp only [Bool.and_eq_true] at this
    exact this.1
  within := by
    intro b hb
    have := List.of_mem_filter hb
    simp only [Bool.and_eq_true] at this
    exact this.2

/-- Once the first rows past a frontier are walked, the rest are those past the last of them. -/
theorem rowsPast_last {trusted last : Body} {xs ys : List Body}
    (h : rowsPast vf.js rows cp trusted = xs ++ ys) (hrows : RangeRows vf.js rows seed)
    (hlast : xs.getLast? = some last) : rowsPast vf.js rows cp last = ys := by
  have hascends : Ascends vf.js cp trusted (xs ++ ys) := h ▸ hrows.ascends trusted
  have hmem : last ∈ xs := List.mem_of_getLast? hlast
  have htrusted := (List.pairwise_cons.mp hascends.ordered).1 last (List.mem_append_left _ hmem)
  have hsame : rowsPast vf.js rows cp last =
      (rowsPast vf.js rows cp trusted).filter fun b =>
        vf.js.lt last.block_index b.block_index := by
    unfold rowsPast
    rw [List.filter_filter]
    apply List.filter_congr
    intro b _
    cases hb : vf.js.lt last.block_index b.block_index with
    | false => simp
    | true => simp [Js.lt_trans htrusted hb]
  have hordered := (List.pairwise_cons.mp hascends.ordered).2
  obtain ⟨hxs, hys, hacross⟩ := List.pairwise_append.mp hordered
  rw [hsame, h, List.filter_append]
  have hnone : xs.filter (fun b => vf.js.lt last.block_index b.block_index) = [] := by
    rw [List.filter_eq_nil_iff]
    intro b hb
    obtain ⟨ini, rfl⟩ := List.getLast?_eq_some_iff.mp hlast
    rcases List.mem_append.mp hb with hb | hb
    · have := (List.pairwise_append.mp hxs).2.2 b hb last (by simp)
      simp [Js.lt_asymm this]
    · simp [List.mem_singleton.mp hb, Js.lt_irrefl]
  have hall : ys.filter (fun b => vf.js.lt last.block_index b.block_index) = ys := by
    rw [List.filter_eq_self]
    exact fun b hb => hacross last hmem b hb
  rw [hnone, hall, List.nil_append]

variable (vf r) in
/-- The verdict of a walk row by row, the checkpoint reached or not. -/
def rowByRow (cp : Body) (steps : List Body) (trusted : Body) : Verdict.Kind :=
  match walkSteps vf r cp steps trusted false with
  | .error stop => stop.kind
  | .ok (frontier, _) =>
    if vf.js.lt frontier.block_index cp.block_index then .wait
    else (compareServed vf cp frontier).kind

/-- Whether the frontier had moved before does not matter to rows past it. -/
theorem walkSteps_advanced {steps : List Body} {trusted : Body} (h : Ascends vf.js cp trusted steps)
    (hne : steps ≠ []) (advanced : Bool) :
    walkSteps vf r cp steps trusted advanced = walkSteps vf r cp steps trusted false := by
  cases steps with
  | nil => exact absurd rfl hne
  | cons next steps => rw [walkSteps_cons h, walkSteps_cons h]

theorem rowByRow_append {xs ys : List Body} {trusted frontier : Body} {moved : Bool}
    (h : Ascends vf.js cp trusted (xs ++ ys)) (hys : ys ≠ [])
    (hfrontier : Ascends vf.js cp frontier ys)
    (hw : walkSteps vf r cp xs trusted false = .ok (frontier, moved)) :
    rowByRow vf r cp (xs ++ ys) trusted = rowByRow vf r cp ys frontier := by
  unfold rowByRow
  rw [walkSteps_append h hys, hw]
  dsimp only
  rw [walkSteps_advanced hfrontier hys moved]

theorem mapM_id_map_some (page : List Body) : (page.map some).mapM id = some page := by
  induction page with
  | nil => rfl
  | cons b page ih => simp [ih]

/-- The binding steps of a page: the rows nothing supersedes first, then some of the others. -/
theorem bindingSteps_page {xs ys range : List Body} (hsub : ∀ c ∈ xs ++ ys, c ∈ range)
    (hxs : ∀ a ∈ xs, isNonBindingStep vf.js a range = false) :
    ∃ zs, bindingSteps vf.js (xs ++ ys) = xs ++ zs ∧ (ys = [] → zs = []) := by
  refine ⟨ys.filter fun step => !isNonBindingStep vf.js step (xs ++ ys), ?_, ?_⟩
  · unfold bindingSteps
    have hkeep : xs.filter (fun step => !isNonBindingStep vf.js step (xs ++ ys)) = xs := by
      rw [List.filter_eq_self]
      intro a ha
      simp [binding_of_subset hsub (hxs a ha)]
    rw [List.filter_append, hkeep]
  · rintro rfl
    rfl

theorem rowByRow_nil (trusted : Body) : rowByRow vf r cp [] trusted =
    if vf.js.lt trusted.block_index cp.block_index then .wait
    else (compareServed vf cp trusted).kind := rfl

/-- A frontier at the checkpoint: no row is left and the loop ends. -/
theorem followLoop_reached {source : RangeSource} {fuel request : Nat} {trusted : Body}
    {fromBlock : JsVal} {steps : List Body} (hascends : Ascends vf.js cp trusted steps)
    (hlt : ¬ vf.js.lt trusted.block_index cp.block_index = true) :
    ∃ v, followLoop vf r source cp fuel request trusted fromBlock = .ok v ∧
      v.kind = rowByRow vf r cp steps trusted := by
  have hnone : steps = [] := by
    by_contra hne
    obtain ⟨b, hb⟩ := List.exists_mem_of_ne_nil steps hne
    have hbt := (List.pairwise_cons.mp hascends.ordered).1 b hb
    exact hlt (Js.lt_of_lt_of_le hbt (hascends.within b hb))
  refine ⟨compareServed vf cp trusted, ?_, ?_⟩
  · cases fuel with
    | zero => rw [followLoop, if_neg hlt]
    | succ fuel =>
      rw [followLoop, if_pos]
      simpa using hlt
  · rw [hnone, rowByRow_nil, if_neg hlt]

/-- A request whose page is not empty. -/
theorem followLoop_page (hrows : RangeRows vf.js rows seed) {limit fuel request : Nat}
    (hlimit : 1 ≤ limit) {trusted : Body} {steps : List Body} (ht : trusted ∈ seed :: rows)
    (hlt : vf.js.lt trusted.block_index cp.block_index = true)
    (hpast : rowsPast vf.js rows cp trusted = steps) (hne : steps ≠ []) :
    followLoop vf r (pagedSource vf.js limit rows) cp (fuel + 1) request trusted
        (vf.js.plusOne trusted.block_index) =
      match walkSteps vf r cp (bindingSteps vf.js (steps.take limit)) trusted false with
      | .error stop => .ok stop
      | .ok (_, false) => .ok (.wait ("range had nothing usable past block " ++
          trusted.block_index.text))
      | .ok (trusted, true) => followLoop vf r (pagedSource vf.js limit rows) cp fuel (request + 1)
          trusted (vf.js.plusOne trusted.block_index) := by
  have hpage : steps.take limit ≠ [] := by
    simp only [ne_eq, List.take_eq_nil_iff, not_or]
    exact ⟨by omega, hne⟩
  rw [followLoop, if_neg (by simp [hlt]), hrows.page_eq ht limit request, hpast]
  dsimp only
  rewrite [if_neg (by simpa using hpage), mapM_id_map_some]
  cases hwalk : walkSteps vf r cp (bindingSteps vf.js (steps.take limit)) trusted false with
  | error stop => simp only [hwalk]
  | ok frontier =>
    obtain ⟨frontier, _ | _⟩ := frontier
    · simp only [hwalk]
    · simp only [hwalk]

/-- The request loop on pages of any size from a frontier on: its verdict is that of the walk row
by row over `clean`, the rows up to the first that stops it, when nothing supersedes them. -/
theorem followLoop_kind (hrows : RangeRows vf.js rows seed) {limit : Nat} (hlimit : 1 ≤ limit)
    {range : List Body} (fuel request : Nat) {trusted : Body} {clean rest : List Body}
    (ht : trusted ∈ seed :: rows) (hpast : rowsPast vf.js rows cp trusted = clean ++ rest)
    (hfuel : clean.length ≤ fuel) (hsub : ∀ c ∈ clean ++ rest, c ∈ range)
    (hclean : ∀ a ∈ clean, isNonBindingStep vf.js a range = false)
    (hrest : rest = [] ∨ ∃ stop, walkSteps vf r cp clean trusted false = .error stop) :
    ∃ v, followLoop vf r (pagedSource vf.js limit rows) cp fuel request trusted
      (vf.js.plusOne trusted.block_index) = .ok v ∧ v.kind = rowByRow vf r cp clean trusted := by
  induction fuel generalizing request trusted clean rest with
  | zero =>
    obtain rfl : clean = [] := List.length_eq_zero_iff.mp (Nat.le_zero.mp hfuel)
    have hascends : Ascends vf.js cp trusted ([] ++ rest) := hpast ▸ hrows.ascends trusted
    by_cases hlt : vf.js.lt trusted.block_index cp.block_index = true
    · refine ⟨.wait "runaway guard tripped", by rw [followLoop, if_pos hlt], ?_⟩
      rw [rowByRow_nil, if_pos hlt]
      rfl
    · exact followLoop_reached hascends.left hlt
  | succ fuel ih =>
    have hascends : Ascends vf.js cp trusted (clean ++ rest) := hpast ▸ hrows.ascends trusted
    by_cases hlt : vf.js.lt trusted.block_index cp.block_index = true
    case neg => exact followLoop_reached hascends.left hlt
    by_cases hempty : clean = []
    · -- nothing is left of the range
      subst hempty
      have hnorest : rest = [] := by
        rcases hrest with h | ⟨stop, hstop⟩
        · exact h
        · simp [walkSteps] at hstop
      subst hnorest
      refine ⟨.wait ("empty checkpoint range from " ++
        (vf.js.plusOne trusted.block_index).text), ?_, ?_⟩
      · rw [followLoop, if_neg (by simp [hlt]), hrows.page_eq ht limit request, hpast]
        simp
      · rw [rowByRow_nil, if_pos hlt]
        rfl
    rw [followLoop_page hrows hlimit ht hlt hpast (by simp [hempty]), List.take_append]
    have hpage : ∀ c ∈ clean.take limit ++ rest.take (limit - clean.length), c ∈ range := by
      intro c hc
      rcases List.mem_append.mp hc with hc | hc
      · exact hsub c (List.mem_append_left _ (List.mem_of_mem_take hc))
      · exact hsub c (List.mem_append_right _ (List.mem_of_mem_take hc))
    obtain ⟨zs, hsteps, hzs⟩ :=
      bindingSteps_page hpage fun a ha => hclean a (List.mem_of_mem_take ha)
    rw [hsteps]
    by_cases hfits : clean.length ≤ limit
    · -- the page holds all the clean rows
      rw [List.take_of_length_le hfits]
      cases hwalk : walkSteps vf r cp clean trusted false with
      | error stop =>
        refine ⟨stop, by rw [walkSteps_error_append hwalk], ?_⟩
        simp [rowByRow, hwalk]
      | ok end' =>
        obtain ⟨frontier, moved⟩ := end'
        have hnorest : rest = [] := by
          rcases hrest with h | ⟨stop, hstop⟩
          · exact h
          · simp [hwalk] at hstop
        subst hnorest
        obtain ⟨hlast, rfl⟩ := walkSteps_last hascends.left hwalk hempty
        have hmem : frontier ∈ rows := by
          have hin : frontier ∈ rowsPast vf.js rows cp trusted := by
            rw [hpast]
            exact List.mem_append_left _ (List.mem_of_getLast? hlast)
          exact List.mem_of_mem_filter hin
        have hdone : rowsPast vf.js rows cp frontier = [] ++ [] := rowsPast_last hpast hrows hlast
        obtain ⟨v, hv, hkind⟩ := ih (request + 1) (List.mem_cons_of_mem _ hmem) hdone (by simp)
          (by simp) (by simp) (.inl rfl)
        refine ⟨v, ?_, ?_⟩
        · rw [hzs (by simp), List.append_nil, hwalk]
          exact hv
        · rw [hkind]
          simp [rowByRow, hwalk, walkSteps]
    · -- the page ends among the clean rows
      have hzs' : zs = [] := hzs (by simp; omega)
      rw [hzs', List.append_nil]
      obtain ⟨xs, ys, rfl, hxs⟩ : ∃ xs ys, clean = xs ++ ys ∧ xs.length = limit :=
        ⟨clean.take limit, clean.drop limit, (List.take_append_drop limit clean).symm,
          by simp; omega⟩
      have hys : ys ≠ [] := by
        rintro rfl
        simp at hfits
        omega
      have hxsne : xs ≠ [] := by
        rintro rfl
        simp at hxs
        omega
      rw [List.take_append_of_le_length (by omega), List.take_of_length_le (by omega)]
      rw [List.append_assoc] at hpast hsub
      have hsplit : Ascends vf.js cp trusted (xs ++ ys) := hascends.left
      cases hwalk : walkSteps vf r cp xs trusted false with
      | error stop =>
        refine ⟨stop, rfl, ?_⟩
        simp [rowByRow, walkSteps_error_append hwalk]
      | ok end' =>
        obtain ⟨frontier, moved⟩ := end'
        obtain ⟨hlast, rfl⟩ := walkSteps_last hsplit.left hwalk hxsne
        have hmem : frontier ∈ rows := by
          have hin : frontier ∈ rowsPast vf.js rows cp trusted := by
            rw [hpast]
            exact List.mem_append_left _ (List.mem_of_getLast? hlast)
          exact List.mem_of_mem_filter hin
        have hpast' := rowsPast_last hpast hrows hlast
        have hfrontier : Ascends vf.js cp frontier (ys ++ rest) := hpast' ▸ hrows.ascends frontier
        rw [rowByRow_append hsplit hys hfrontier.left hwalk]
        refine ih (request + 1) (List.mem_cons_of_mem _ hmem) hpast' ?_ ?_ ?_ ?_
        · simp only [List.length_append] at hfuel
          omega
        · exact fun c hc => hsub c (List.mem_append_right _ hc)
        · exact fun a ha => hclean a (List.mem_append_right _ ha)
        · refine hrest.imp_right ?_
          rintro ⟨stop, hstop⟩
          rw [walkSteps_append hsplit hys, hwalk] at hstop
          dsimp only at hstop
          rw [walkSteps_advanced hfrontier.left hys] at hstop
          exact ⟨stop, hstop⟩

end Pages

/-- The rows of the range up to the first one that stops a walk row by row are at most as many as
the requests the follow may make, and no row of the range supersedes one of them. -/
def Undisturbed (vf : Verifier N) (r : Replica) (rows : List Body) (cp seed : Body) : Prop :=
  ∃ clean rest, rowsPast vf.js rows cp seed = clean ++ rest ∧ clean.length ≤ 10000 ∧
    (∀ a ∈ clean, isNonBindingStep vf.js a (rowsPast vf.js rows cp seed) = false) ∧
    (rest = [] ∨ ∃ stop, walkSteps vf r cp clean seed false = .error stop)

/-- The verdict of a follow over pages of a given size. -/
def pagedVerdict (vf : Verifier N) (r : Replica) (rows : List Body) (cp seed : Body) (limit : Nat) :
    Except String Verdict.Kind :=
  (followCheckpointForward vf r (pagedSource vf.js limit rows) cp (some seed)).map Verdict.kind

/-- An honest range: rows in order, each plain or superseding from an earlier height, signed by the
set of its snapshot, and with the replica's roots unless a later row supersedes it. -/
structure Honest (vf : Verifier N) (r : Replica) (rows : List Body) (seed : Body) : Prop extends
    RangeRows vf.js rows seed where
  earlier : ∀ b ∈ rows, b.supersedes_from.nullish = true ∨
    vf.js.lt b.supersedes_from b.block_index = true
  signed : ∀ b ∈ rows, (vf.verifyCheckpoint b
    (oraclePublishSetAt r (buriedSnapshotBlock vf r b.snapshot_block))).valid = true
  roots : ∀ b ∈ rows, checkpointRootsMatchLocal vf r b = .isMatch ∨
    isNonBindingStep vf.js b rows = true

def seedBody : Body := bodyAt "10" "0" "1" []

/-- Block 20 was signed before a replay changed its root. -/
def staleBody : Body := { bodyAt "20" "10" "2" [⟨"old", "old"⟩] with state_root := .str "stale" }

/-- Block 30 supersedes everything from block 15 on. -/
def supersedingBody : Body :=
  { bodyAt "30" "10" "3" [⟨"old", "old"⟩] with
    supersedes_from := .num "15"
    rules_digest := .str "rules" }

theorem stale_and_superseding_honest :
    Honest plainVerifier rotatingReplica [staleBody, supersedingBody] seedBody where
  number := by decide
  ordered := by decide
  integral := by decide
  earlier := by decide
  signed := by decide
  roots := by decide

end XChainSync.Checkpoint
