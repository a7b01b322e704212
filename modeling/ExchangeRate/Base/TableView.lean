import ExchangeRate.Base.Dictionary

/-!
# Tables with a single selection and reusable cells

A *table* shows some of the rows of a list, those that are visible. Each visible row
has a cell; the cell of a row that leaves goes to a pool, from where it is taken again
for a row that comes, as it was left. One row at most is selected, and it need not be
visible. A *table owner* has the rows: it says how many there are, it configures the
cell of a row that comes into view, and it is told of selections.

Owners often show in the cells themselves which row is the current one, and keep that
mark up to date in the same callbacks. They have little to do it with: a cell can only
be reached while its row is visible, so the callback that takes a mark away does nothing
for a row out of view. What makes it work nevertheless is that a row comes into view
freshly configured. `TableOwner.Lawful` says what the callbacks have to do, and
`TableOwner.Consistent` what then holds at all times: the visible rows with a mark are
the current ones, and a visible row that is current is the selected one.
-/

/-- A table: its visible rows with their cells, the cells that wait for reuse, and the selected
row. -/
structure TableView (γ : Type*) where
  visible : List (ℕ × γ)
  pool : List γ
  selected : Option ℕ
  /-- A row is visible once. -/
  visible_nodup : (visible.map Prod.fst).Nodup

namespace TableView

variable {γ : Type*} {t : TableView γ} {i j : ℕ}

/-- The visible rows. -/
def rows (t : TableView γ) : List ℕ := t.visible.map Prod.fst

/-- The cell of a row, when the row is visible. -/
def cellForRow (t : TableView γ) (i : ℕ) : Option γ := t.visible.lookup i

theorem cellForRow_eq_some_iff {c : γ} : t.cellForRow i = some c ↔ (i, c) ∈ t.visible :=
  List.lookup_eq_some_iff_mem t.visible_nodup

/-- A row has a cell exactly when it is visible. -/
theorem mem_rows_iff : i ∈ t.rows ↔ ∃ c, t.cellForRow i = some c := by
  simp [rows, cellForRow_eq_some_iff]

theorem mem_rows_of_cellForRow {c : γ} (h : t.cellForRow i = some c) : i ∈ t.rows :=
  mem_rows_iff.mpr ⟨c, h⟩

/-! ### What a table does by itself -/

/-- The table before anything has been shown. -/
def empty : TableView γ := ⟨[], [], none, List.nodup_nil⟩

/-- Change the cell of a row, when the row is visible. -/
def modifyCell (t : TableView γ) (i : ℕ) (f : γ → γ) : TableView γ where
  visible := t.visible.map fun r => (r.1, if r.1 = i then f r.2 else r.2)
  pool := t.pool
  selected := t.selected
  visible_nodup := by simpa [Function.comp_def] using t.visible_nodup

/-- Select a row in place of the one that is selected. -/
def selectRow (t : TableView γ) (i : ℕ) : TableView γ := { t with selected := some i }

/-- Have no row selected. -/
def deselectRow (t : TableView γ) : TableView γ := { t with selected := none }

/-- Show a row that is not visible in a cell; the cell of the pool it was made from is given by
its place there. -/
def display (t : TableView γ) (i k : ℕ) (c : γ) (h : i ∉ t.rows) : TableView γ where
  visible := (i, c) :: t.visible
  pool := t.pool.eraseIdx k
  selected := t.selected
  visible_nodup := List.nodup_cons.mpr ⟨h, t.visible_nodup⟩

/-- A row goes out of view, and its cell to the pool. -/
def endDisplaying (t : TableView γ) (i : ℕ) : TableView γ where
  visible := t.visible.filter fun r => r.1 ≠ i
  pool := (t.cellForRow i).toList ++ t.pool
  selected := t.selected
  visible_nodup := t.visible_nodup.sublist (List.filter_sublist.map Prod.fst)

/-- Forget the rows and the selection; all cells go to the pool. -/
def clear (t : TableView γ) : TableView γ :=
  ⟨[], t.visible.map Prod.snd ++ t.pool, none, List.nodup_nil⟩

@[simp] theorem rows_modifyCell (f : γ → γ) : (t.modifyCell i f).rows = t.rows := by
  simp [rows, modifyCell, Function.comp_def]

@[simp] theorem selected_modifyCell (f : γ → γ) : (t.modifyCell i f).selected = t.selected := rfl

theorem cellForRow_modifyCell (f : γ → γ) :
    (t.modifyCell i f).cellForRow j = (t.cellForRow j).map fun c => if j = i then f c else c := by
  ext c
  simp only [cellForRow_eq_some_iff, modifyCell, List.mem_map, Prod.mk.injEq,
    Option.map_eq_some_iff]
  constructor
  · rintro ⟨⟨k, b⟩, hmem, rfl, rfl⟩
    exact ⟨b, hmem, rfl⟩
  · rintro ⟨b, hmem, rfl⟩
    exact ⟨(j, b), hmem, rfl, rfl⟩

/-- There is nothing to change about a row out of view. -/
theorem modifyCell_of_cellForRow_eq_none (h : t.cellForRow i = none) (f : γ → γ) :
    t.modifyCell i f = t := by
  have hrows : ∀ r ∈ t.visible, (r.1, if r.1 = i then f r.2 else r.2) = r := by
    intro r hr
    have hne : r.1 ≠ i := by
      rintro rfl
      rw [cellForRow_eq_some_iff.mpr hr] at h
      cases h
    rw [if_neg hne]
  have hvisible : (t.visible.map fun r => (r.1, if r.1 = i then f r.2 else r.2)) = t.visible :=
    (List.map_congr_left hrows).trans (List.map_id _)
  simp only [modifyCell, hvisible]

@[simp] theorem rows_selectRow : (t.selectRow i).rows = t.rows := rfl

@[simp] theorem cellForRow_selectRow : (t.selectRow i).cellForRow j = t.cellForRow j := rfl

@[simp] theorem rows_deselectRow : t.deselectRow.rows = t.rows := rfl

/-- The rows after one more came into view. -/
theorem cellForRow_display {k : ℕ} {c d : γ} {h : i ∉ t.rows} :
    (t.display i k c h).cellForRow j = some d ↔ j = i ∧ d = c ∨ t.cellForRow j = some d := by
  simp only [cellForRow_eq_some_iff, display, List.mem_cons, Prod.mk.injEq]

/-- The rows after one went out of view. -/
theorem cellForRow_endDisplaying {c : γ} :
    (t.endDisplaying i).cellForRow j = some c ↔ t.cellForRow j = some c ∧ j ≠ i := by
  simp only [cellForRow_eq_some_iff, endDisplaying, List.mem_filter, decide_eq_true_eq]

end TableView

/-! ### A table and its owner -/

/-- What a table asks of its owner, and tells it. -/
structure TableOwner (σ γ : Type*) where
  numberOfRows : σ → ℕ
  /-- A cell that has not been used yet. -/
  newCell : γ
  /-- Configure a cell for a row, and say whether the row is to be selected. -/
  cellForRowAt : σ → ℕ → γ → γ × Bool
  /-- The user has selected a row. -/
  didSelectRowAt : σ → TableView γ → ℕ → σ × TableView γ
  /-- The user has selected another row than this one. -/
  didDeselectRowAt : σ → TableView γ → ℕ → σ × TableView γ

namespace TableOwner

variable {σ γ : Type*} (o : TableOwner σ γ)

/-- A row comes into view, in the cell at place `k` of the pool, or in a new cell when there is
none at that place. -/
def enter (s : σ) (t : TableView γ) (i k : ℕ) : Option (TableView γ) :=
  if h : i < o.numberOfRows s ∧ i ∉ t.rows then
    let configured := o.cellForRowAt s i (t.pool.getD k o.newCell)
    let t' := t.display i k configured.1 h.2
    some (if configured.2 then t'.selectRow i else t')
  else none

/-- The table is loaded anew, and then shows some rows. -/
def reload (s : σ) (t : TableView γ) (shown : List (ℕ × ℕ)) : Option (TableView γ) :=
  shown.foldlM (fun t r => o.enter s t r.1 r.2) t.clear

/-- The user taps a visible row. A selected row is told that it is not any more before the
tapped one is told that it is. -/
def tap (s : σ) (t : TableView γ) (i : ℕ) : Option (σ × TableView γ) :=
  if i ∈ t.rows then
    match t.selected with
    | none => some (o.didSelectRowAt s (t.selectRow i) i)
    | some j =>
      if j = i then some (o.didSelectRowAt s t i)
      else
        let (s', t') := o.didDeselectRowAt s t.deselectRow j
        some (o.didSelectRowAt s' (t'.selectRow i) i)
  else none

/-- **What the callbacks have to do**, for rows that are marked when they are current: a cell is
configured with the mark its row needs, and a current row is selected; a selection makes its
row current, and marks it; a deselection takes the mark away. -/
structure Lawful (marked : γ → Prop) (current : σ → ℕ → Prop) : Prop where
  unique : ∀ s i j, i < o.numberOfRows s → j < o.numberOfRows s →
    current s i → current s j → i = j
  cell_marked : ∀ s i c, marked (o.cellForRowAt s i c).1 ↔ current s i
  cell_selects : ∀ s i c, (o.cellForRowAt s i c).2 = true ↔ current s i
  select_rows : ∀ s t i, o.numberOfRows (o.didSelectRowAt s t i).1 = o.numberOfRows s
  select_current : ∀ s t i j, i ∈ t.rows → i < o.numberOfRows s → j < o.numberOfRows s →
    (current (o.didSelectRowAt s t i).1 j ↔ j = i)
  select_mark : ∀ s t i, ∃ f, (∀ c, marked (f c)) ∧
    (o.didSelectRowAt s t i).2 = t.modifyCell i f
  deselect_owner : ∀ s t i, (o.didDeselectRowAt s t i).1 = s
  deselect_mark : ∀ s t i, ∃ f, (∀ c, ¬marked (f c)) ∧
    (o.didDeselectRowAt s t i).2 = t.modifyCell i f

/-- **The marks are right**: the visible rows exist, those with a mark are the current ones, and
a visible row that is current is selected. -/
structure Consistent (marked : γ → Prop) (current : σ → ℕ → Prop) (s : σ) (t : TableView γ) :
    Prop where
  rows_lt : ∀ i ∈ t.rows, i < o.numberOfRows s
  marks : ∀ i c, t.cellForRow i = some c → (marked c ↔ current s i)
  selected : ∀ i ∈ t.rows, current s i → t.selected = some i

variable {o} {marked : γ → Prop} {current : σ → ℕ → Prop} {s : σ} {t t' : TableView γ} {i k : ℕ}

/-- Nothing is wrong about a table that shows nothing. -/
theorem consistent_of_visible_eq_nil (h : t.visible = []) : o.Consistent marked current s t := by
  have hrows : t.rows = [] := by rw [TableView.rows, h, List.map_nil]
  refine ⟨by simp [hrows], fun i c hc => ?_, by simp [hrows]⟩
  rw [TableView.cellForRow_eq_some_iff, h] at hc
  cases hc

/-- **One marked row at most**: two visible rows with a mark are one. -/
theorem Consistent.eq_of_marked (h : o.Consistent marked current s t)
    (hlaw : o.Lawful marked current) {i j : ℕ} {c d : γ} (hi : t.cellForRow i = some c)
    (hj : t.cellForRow j = some d) (hc : marked c) (hd : marked d) : i = j :=
  hlaw.unique s i j (h.rows_lt i (TableView.mem_rows_of_cellForRow hi))
    (h.rows_lt j (TableView.mem_rows_of_cellForRow hj)) ((h.marks i c hi).mp hc)
    ((h.marks j d hj).mp hd)

/-- **What happens when a row comes into view**: it is shown in a configured cell, and is
selected when the owner says so; the other visible rows keep their cells. -/
theorem enter_cases (h : o.enter s t i k = some t') : i < o.numberOfRows s ∧
    ∃ c, (∀ j d, t'.cellForRow j = some d ↔
        j = i ∧ d = (o.cellForRowAt s i c).1 ∨ t.cellForRow j = some d) ∧
      t'.selected = if (o.cellForRowAt s i c).2 then some i else t.selected := by
  unfold TableOwner.enter at h
  split_ifs at h with hi
  rw [Option.some.injEq] at h
  refine ⟨hi.1, t.pool.getD k o.newCell, fun j d => ?_, ?_⟩
  · rw [← TableView.cellForRow_display (k := k) (h := hi.2), ← h]
    split_ifs
    · rfl
    · rfl
  · rw [← h]
    split_ifs
    · rfl
    · rfl

/-- A row that comes into view keeps the marks right. -/
theorem Consistent.enter (h : o.Consistent marked current s t) (hlaw : o.Lawful marked current)
    (henter : o.enter s t i k = some t') : o.Consistent marked current s t' := by
  obtain ⟨hlt, c, hcell, hselected⟩ := enter_cases henter
  have hrow : ∀ j ∈ t'.rows, j = i ∨ j ∈ t.rows := by
    intro j hj
    obtain ⟨d, hd⟩ := TableView.mem_rows_iff.mp hj
    rcases (hcell j d).mp hd with ⟨rfl, -⟩ | hold
    · exact Or.inl rfl
    · exact Or.inr (TableView.mem_rows_of_cellForRow hold)
  refine ⟨fun j hj => ?_, fun j d hd => ?_, fun j hj hcur => ?_⟩
  · rcases hrow j hj with rfl | hold
    · exact hlt
    · exact h.rows_lt j hold
  · rcases (hcell j d).mp hd with ⟨rfl, rfl⟩ | hold
    · exact hlaw.cell_marked s j c
    · exact h.marks j d hold
  · by_cases hi : current s i
    · -- the row that came is current, and no other is
      have hji : j = i := by
        rcases hrow j hj with rfl | hold
        · rfl
        · exact hlaw.unique s j i (h.rows_lt j hold) hlt hcur hi
      rw [hselected, if_pos ((hlaw.cell_selects s i c).mpr hi), hji]
    · rcases hrow j hj with rfl | hold
      · exact absurd hcur hi
      · rw [hselected, if_neg (by rwa [hlaw.cell_selects s i c])]
        exact h.selected j hold hcur

/-- A row that goes out of view keeps the marks right. -/
theorem Consistent.endDisplaying (h : o.Consistent marked current s t) (i : ℕ) :
    o.Consistent marked current s (t.endDisplaying i) := by
  have hcell : ∀ j c, (t.endDisplaying i).cellForRow j = some c → t.cellForRow j = some c :=
    fun j c hc => (TableView.cellForRow_endDisplaying.mp hc).1
  have hrow : ∀ j ∈ (t.endDisplaying i).rows, j ∈ t.rows := by
    intro j hj
    obtain ⟨c, hc⟩ := TableView.mem_rows_iff.mp hj
    exact TableView.mem_rows_of_cellForRow (hcell j c hc)
  exact ⟨fun j hj => h.rows_lt j (hrow j hj), fun j c hc => h.marks j c (hcell j c hc),
    fun j hj => h.selected j (hrow j hj)⟩

/-- **The rule for loading a table**: what holds of a table that shows nothing, and is kept when a
row comes into view, holds when the table has been loaded. -/
theorem reload_rule {p : TableView γ → Prop} (h₀ : p t.clear)
    (henter : ∀ t t' i k, p t → o.enter s t i k = some t' → p t') {shown : List (ℕ × ℕ)}
    (h : o.reload s t shown = some t') : p t' := by
  have hrun : ∀ (shown : List (ℕ × ℕ)) (t₀ : TableView γ), p t₀ →
      shown.foldlM (fun t r => o.enter s t r.1 r.2) t₀ = some t' → p t' := by
    intro shown
    induction shown with
    | nil =>
      intro t₀ h₀ hfold
      rw [List.foldlM_nil, Option.pure_def, Option.some.injEq] at hfold
      rwa [← hfold]
    | cons r shown ih =>
      intro t₀ h₀ hfold
      rw [List.foldlM_cons, Option.bind_eq_bind, Option.bind_eq_some_iff] at hfold
      obtain ⟨t₁, hfirst, hrest⟩ := hfold
      exact ih t₁ (henter t₀ t₁ r.1 r.2 h₀ hfirst) hrest
  exact hrun shown t.clear h₀ h

/-- **Loading the table makes the marks right**, whatever they were and whatever the owner has
become. -/
theorem consistent_of_reload (hlaw : o.Lawful marked current) {shown : List (ℕ × ℕ)}
    (h : o.reload s t shown = some t') : o.Consistent marked current s t' :=
  reload_rule (p := o.Consistent marked current s) (consistent_of_visible_eq_nil rfl)
    (fun _ _ _ _ h₀ henter => h₀.enter hlaw henter) h

/-- **A selection makes the marks right** when no other row has a mark left. -/
theorem consistent_of_didSelectRowAt (hlaw : o.Lawful marked current) (hi : i ∈ t.rows)
    (hlt : ∀ j ∈ t.rows, j < o.numberOfRows s) (hselected : t.selected = some i)
    (hothers : ∀ j c, j ≠ i → t.cellForRow j = some c → ¬marked c) :
    o.Consistent marked current (o.didSelectRowAt s t i).1 (o.didSelectRowAt s t i).2 := by
  obtain ⟨f, hf, htable⟩ := hlaw.select_mark s t i
  have hcurrent : ∀ j ∈ t.rows, (current (o.didSelectRowAt s t i).1 j ↔ j = i) :=
    fun j hj => hlaw.select_current s t i j hi (hlt i hi) (hlt j hj)
  rw [htable]
  refine ⟨fun j hj => ?_, fun j c hc => ?_, fun j hj hcur => ?_⟩
  · rw [TableView.rows_modifyCell] at hj
    rw [hlaw.select_rows]
    exact hlt j hj
  · rw [TableView.cellForRow_modifyCell, Option.map_eq_some_iff] at hc
    obtain ⟨d, hd, rfl⟩ := hc
    rw [hcurrent j (TableView.mem_rows_of_cellForRow hd)]
    by_cases hji : j = i
    · rw [if_pos hji]
      exact iff_of_true (hf d) hji
    · rw [if_neg hji]
      exact iff_of_false (hothers j d hji hd) hji
  · rw [TableView.rows_modifyCell] at hj
    rw [TableView.selected_modifyCell, hselected, (hcurrent j hj).mp hcur]

/-- **What a tap comes to**: at last the tapped row is told, and then it is the selected one and
no other visible row has a mark left. -/
theorem Consistent.tap_cases (h : o.Consistent marked current s t) (hlaw : o.Lawful marked current)
    {s' : σ} (htap : o.tap s t i = some (s', t')) : i ∈ t.rows ∧
    ∃ t₁, t₁.rows = t.rows ∧ t₁.selected = some i ∧
      (∀ j c, j ≠ i → t₁.cellForRow j = some c → ¬marked c) ∧
      o.didSelectRowAt s t₁ i = (s', t') := by
  unfold TableOwner.tap at htap
  split_ifs at htap with hi
  -- a visible row with a mark is current, hence the selected one
  have hmarked : ∀ j c, t.cellForRow j = some c → marked c → t.selected = some j := fun j c hc hm =>
    h.selected j (TableView.mem_rows_of_cellForRow hc) ((h.marks j c hc).mp hm)
  refine ⟨hi, ?_⟩
  rcases hselected : t.selected with _ | j
  · rw [hselected] at htap hmarked
    refine ⟨t.selectRow i, rfl, rfl, fun l c _ hc hm => ?_, Option.some.inj htap⟩
    cases hmarked l c hc hm
  · rw [hselected] at htap hmarked
    by_cases hji : j = i
    · simp only [if_pos hji, Option.some.injEq] at htap
      refine ⟨t, rfl, by rw [hselected, hji], fun l c hne hc hm => ?_, htap⟩
      exact hne ((Option.some.inj (hmarked l c hc hm)).symm.trans hji)
    · -- the selected row loses its mark, if it is visible, and it was the only one with a mark
      obtain ⟨f, hf, htable⟩ := hlaw.deselect_mark s t.deselectRow j
      have howner := hlaw.deselect_owner s t.deselectRow j
      simp only [if_neg hji, Option.some.injEq, htable, howner] at htap
      refine ⟨_, by simp, rfl, fun l c _ hc => ?_, htap⟩
      rw [TableView.cellForRow_selectRow, TableView.cellForRow_modifyCell,
        Option.map_eq_some_iff] at hc
      obtain ⟨d, hd, rfl⟩ := hc
      split_ifs with hlj
      · exact hf d
      · intro hm
        exact hlj (Option.some.inj (hmarked l d hd hm)).symm

/-- **A tap keeps the marks right**, also when the row that was selected is out of view. -/
theorem Consistent.tap (h : o.Consistent marked current s t) (hlaw : o.Lawful marked current)
    {s' : σ} (htap : o.tap s t i = some (s', t')) : o.Consistent marked current s' t' := by
  obtain ⟨hi, t₁, hrows, hselected, hothers, htold⟩ := h.tap_cases hlaw htap
  have hi₁ : i ∈ t₁.rows := by rwa [hrows]
  have hlt : ∀ j ∈ t₁.rows, j < o.numberOfRows s := by
    rw [hrows]
    exact h.rows_lt
  have hend := consistent_of_didSelectRowAt hlaw hi₁ hlt hselected hothers
  rwa [htold] at hend

/-! ### What the cells say -/

variable {α : Type*} {label : γ → α} {expected : σ → ℕ → α}

variable (o) in
/-- **What a cell says is set when it is configured**: by what its row is then, and the callbacks
of the selection change neither the one nor the other. -/
structure Labels (label : γ → α) (expected : σ → ℕ → α) : Prop where
  cell_label : ∀ s i c, label (o.cellForRowAt s i c).1 = expected s i
  select_expected : ∀ s t i j, expected (o.didSelectRowAt s t i).1 j = expected s j
  select_label : ∀ s t i, ∃ f, (∀ c, label (f c) = label c) ∧
    (o.didSelectRowAt s t i).2 = t.modifyCell i f
  deselect_expected : ∀ s t i j, expected (o.didDeselectRowAt s t i).1 j = expected s j
  deselect_label : ∀ s t i, ∃ f, (∀ c, label (f c) = label c) ∧
    (o.didDeselectRowAt s t i).2 = t.modifyCell i f

/-- **The visible cells say what their rows are.** -/
def Labelled (label : γ → α) (expected : σ → ℕ → α) (s : σ) (t : TableView γ) : Prop :=
  ∀ i c, t.cellForRow i = some c → label c = expected s i

theorem labelled_of_visible_eq_nil (h : t.visible = []) : Labelled label expected s t := by
  intro i c hc
  rw [TableView.cellForRow_eq_some_iff, h] at hc
  cases hc

theorem Labelled.enter (h : Labelled label expected s t) (hlaw : o.Labels label expected)
    (henter : o.enter s t i k = some t') : Labelled label expected s t' := by
  obtain ⟨-, c, hcell, -⟩ := enter_cases henter
  intro j d hd
  rcases (hcell j d).mp hd with ⟨rfl, rfl⟩ | hold
  · exact hlaw.cell_label s j c
  · exact h j d hold

theorem Labelled.endDisplaying (h : Labelled label expected s t) (i : ℕ) :
    Labelled label expected s (t.endDisplaying i) :=
  fun j c hc => h j c (TableView.cellForRow_endDisplaying.mp hc).1

theorem labelled_of_reload (hlaw : o.Labels label expected) {shown : List (ℕ × ℕ)}
    (h : o.reload s t shown = some t') : Labelled label expected s t' :=
  reload_rule (p := Labelled label expected s) (labelled_of_visible_eq_nil rfl)
    (fun _ _ _ _ h₀ henter => h₀.enter hlaw henter) h

/-- A change of a cell that leaves alone what it says. -/
theorem Labelled.modifyCell (h : Labelled label expected s t) {f : γ → γ}
    (hf : ∀ c, label (f c) = label c) : Labelled label expected s (t.modifyCell i f) := by
  intro j c hc
  rw [TableView.cellForRow_modifyCell, Option.map_eq_some_iff] at hc
  obtain ⟨d, hd, rfl⟩ := hc
  rw [← h j d hd]
  split_ifs
  · exact hf d
  · rfl

theorem Labelled.didSelectRowAt (h : Labelled label expected s t) (hlaw : o.Labels label expected) :
    Labelled label expected (o.didSelectRowAt s t i).1 (o.didSelectRowAt s t i).2 := by
  obtain ⟨f, hf, htable⟩ := hlaw.select_label s t i
  rw [htable]
  intro j c hc
  rw [hlaw.select_expected]
  exact h.modifyCell hf j c hc

theorem Labelled.didDeselectRowAt (h : Labelled label expected s t)
    (hlaw : o.Labels label expected) :
    Labelled label expected (o.didDeselectRowAt s t i).1 (o.didDeselectRowAt s t i).2 := by
  obtain ⟨f, hf, htable⟩ := hlaw.deselect_label s t i
  rw [htable]
  intro j c hc
  rw [hlaw.deselect_expected]
  exact h.modifyCell hf j c hc

/-- **A tap leaves alone what the cells say.** -/
theorem Labelled.tap (h : Labelled label expected s t) (hlaw : o.Labels label expected) {s' : σ}
    (htap : o.tap s t i = some (s', t')) : Labelled label expected s' t' := by
  unfold TableOwner.tap at htap
  split_ifs at htap with hi
  split at htap
  · have hselected : Labelled label expected s (t.selectRow i) := h
    obtain ⟨rfl, rfl⟩ := Prod.mk.inj (Option.some.inj htap)
    exact hselected.didSelectRowAt hlaw
  · rename_i j _
    split_ifs at htap with hji
    · obtain ⟨rfl, rfl⟩ := Prod.mk.inj (Option.some.inj htap)
      exact h.didSelectRowAt hlaw
    · have hdeselected : Labelled label expected s t.deselectRow := h
      have htold := hdeselected.didDeselectRowAt hlaw (i := j)
      obtain ⟨rfl, rfl⟩ := Prod.mk.inj (Option.some.inj htap)
      exact Labelled.didSelectRowAt (t := (o.didDeselectRowAt s t.deselectRow j).2.selectRow i)
        htold hlaw

end TableOwner
