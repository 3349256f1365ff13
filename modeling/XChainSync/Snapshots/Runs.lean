import Mathlib
import XChainSync.Snapshots.Texts

/-!
# Runs of a snapshot stream

What the loop over the tables puts out, whatever the view answers and wherever the client leaves:
the tables as they are read one by one, a part of that, or a text with an array left open.
-/

namespace XChainSync.Snapshots
set_option autoImplicit false
open Client (DbType)
open CutStream (Emits Puts Stop Cut await attempt)
open JsonText (ascii natText Value writeString)
open Wire (Row Stored)

/-! ### The tables read one by one -/

theorem ok_of_bind {β γ : Type} {x : Except Fault β} {f : β → Except Fault γ} {c : γ}
    (h : x >>= f = .ok c) : ∃ b, x = .ok b ∧ f b = .ok c := by
  cases x with
  | error e => cases h
  | ok b => exact ⟨b, rfl, h⟩

/-- What a snapshot holds: each table that carries rows, in order. -/
def readTables (carried : Identifier → Except Fault (Option (List (Row Stored)))) :
    List Identifier → Except Fault (List Table)
  | [] => .ok []
  | t :: ts => do
    let rows ← carried t
    let tables ← readTables carried ts
    return match rows with
      | none => tables
      | some rows => (t, rows) :: tables

theorem readTables_sublist {carried : Identifier → Except Fault (Option (List (Row Stored)))}
    {ts : List Identifier} {tables : List Table} (h : readTables carried ts = .ok tables) :
    (tables.map Prod.fst).Sublist ts := by
  induction ts generalizing tables with
  | nil =>
    cases h
    exact List.nil_sublist []
  | cons t ts ih =>
    rw [readTables] at h
    obtain ⟨rows, -, h⟩ := ok_of_bind h
    obtain ⟨more, hmore, h⟩ := ok_of_bind h
    cases rows with
    | none =>
      cases h
      exact (ih hmore).cons t
    | some rows =>
      cases h
      exact (ih hmore).cons_cons t

/-! ### One table -/

section Streams
variable {stays sound : Prop} {shortest : ℚ → CodeUnits}

/-- A stream that is not left and whose view answers does not stop. -/
def Excused (stays sound : Prop) (e : Stop Fault) : Prop :=
  (e = .aborted → ¬ stays) ∧ ∀ fault, e = .error fault → ¬ sound

theorem excused_aborted {stays sound : Prop} (h : ¬ stays) : Excused stays sound .aborted := by
  refine ⟨fun _ => h, fun fault heq => ?_⟩
  cases heq

theorem excused_error {stays sound : Prop} {fault : Fault} (h : ¬ sound) :
    Excused stays sound (.error fault) := by
  refine ⟨fun heq => ?_, fun _ _ => h⟩
  cases heq

theorem puts_comma (first : Bool) : Puts stays (putComma first) (commaText first) := by
  cases first with
  | true => exact Puts.pure
  | false => exact Puts.write _

theorem puts_tableKey (first : Bool) (t : Identifier) :
    Puts stays (putTableKey first t) (keyText first t) := by
  have htext : keyText first t =
      commaText first ++ (ascii "\"" ++ t.units ++ ascii "\":[") := by
    rw [keyText, writeString_units]
    simp only [List.append_assoc]
    rfl
  rw [htext]
  exact (puts_comma first).bind (Puts.write _)

theorem puts_rows (first : Bool) (rows : List (Row Stored)) :
    Puts stays (putRows shortest first rows) (rowsText shortest first rows) := by
  induction rows generalizing first with
  | nil => exact Puts.pure
  | cons row rows ih =>
    rw [putRows, rowsText, List.append_assoc, rowJson_eq]
    apply (puts_comma first).bind
    rw [CutStream.await_ok_bind]
    exact (Puts.write _).bind (ih false)

/-- The text of a table, of which nothing is put out where it carries no rows. -/
def carriedText (shortest : ℚ → CodeUnits) (first : Bool) (t : Identifier) :
    Option (List (Row Stored)) → CodeUnits
  | none => []
  | some rows => tableText shortest first (t, rows)

/-- A table is put out as it is read, or with its array left open, or a part of it is. -/
def StreamsTable (stays sound : Prop) (shortest : ℚ → CodeUnits)
    (streamTable : Bool → Identifier → Streamed Bool)
    (carried : Identifier → Except Fault (Option (List (Row Stored)))) (t : Identifier) : Prop :=
  ∀ first, Emits stays (streamTable first t)
    (fun next out =>
      (∃ rows, carried t = .ok rows ∧ out = carriedText shortest first t rows ∧
        next = (first && rows.isNone)) ∨
      (¬ sound ∧ next = first ∧ ∃ rows, rows ≠ [] ∧ out = openText shortest first t rows))
    (fun e out => Excused stays sound e ∧ ∃ rows, out <+: tableText shortest first (t, rows))

/-- Some tables, then one whose array is left open, then what is put out after it. -/
def Torn (shortest : ℚ → CodeUnits) (first : Bool) (ts : List Identifier) (out : CodeUnits) : Prop :=
  ∃ (tables : List Table) (t : Identifier) (rows : List (Row Stored)) (tail : CodeUnits),
    out = tablesText shortest first tables ++
      (openText shortest (first && tables.isEmpty) t rows ++ tail) ∧
    rows ≠ [] ∧ (tables.map Prod.fst ++ [t]).Sublist ts ∧ Stray tail

theorem Torn.stray {first : Bool} {ts : List Identifier} {out : CodeUnits}
    (h : Torn shortest first ts out) : Stray out := by
  obtain ⟨tables, t, rows, tail, rfl, -⟩ := h
  apply stray_tablesText
  rintro rfl
  exact stray_tableText _ t rows tail

/-- Tables of these names, or a torn text. -/
def Shaped (shortest : ℚ → CodeUnits) (first : Bool) (ts : List Identifier) (out : CodeUnits) : Prop :=
  (∃ tables : List Table, (tables.map Prod.fst).Sublist ts ∧ out = tablesText shortest first tables) ∨
    Torn shortest first ts out

theorem Shaped.stray {first : Bool} {ts : List Identifier} {out : CodeUnits}
    (h : Shaped shortest first ts out) : Stray out := by
  rcases h with ⟨tables, -, rfl⟩ | htorn
  · rw [← List.append_nil (tablesText shortest first tables)]
    exact stray_tablesText fun _ => Or.inl rfl
  · exact htorn.stray

theorem Torn.cons {first : Bool} {t : Identifier} {ts : List Identifier} {out : CodeUnits}
    (h : Torn shortest false ts out) (rows : List (Row Stored)) :
    Torn shortest first (t :: ts) (tableText shortest first (t, rows) ++ out) := by
  obtain ⟨tables, u, open', tail, rfl, hrows, hnames, htail⟩ := h
  refine ⟨(t, rows) :: tables, u, open', tail, ?_, hrows, hnames.cons_cons t, htail⟩
  rw [tablesText, List.append_assoc, List.isEmpty_cons, Bool.and_false, Bool.false_and]

theorem Torn.skip {first : Bool} {t : Identifier} {ts : List Identifier} {out : CodeUnits}
    (h : Torn shortest first ts out) : Torn shortest first (t :: ts) out := by
  obtain ⟨tables, u, open', tail, rfl, hrows, hnames, htail⟩ := h
  exact ⟨tables, u, open', tail, rfl, hrows, hnames.cons t, htail⟩

theorem torn_open {first : Bool} {t : Identifier} {ts : List Identifier} {rows : List (Row Stored)}
    {out : CodeUnits} (hrows : rows ≠ []) (h : Shaped shortest first ts out) :
    Torn shortest first (t :: ts) (openText shortest first t rows ++ out) := by
  refine ⟨[], t, rows, out, ?_, hrows, (List.nil_sublist ts).cons_cons t, h.stray⟩
  rw [tablesText, List.nil_append, List.isEmpty_nil, Bool.and_true]

theorem Shaped.cons {first : Bool} {t : Identifier} {ts : List Identifier} {out : CodeUnits}
    (h : Shaped shortest false ts out) (rows : List (Row Stored)) :
    Shaped shortest first (t :: ts) (tableText shortest first (t, rows) ++ out) := by
  rcases h with ⟨tables, hnames, rfl⟩ | htorn
  · exact Or.inl ⟨(t, rows) :: tables, hnames.cons_cons t, rfl⟩
  · exact Or.inr (htorn.cons rows)

theorem Shaped.skip {first : Bool} {t : Identifier} {ts : List Identifier} {out : CodeUnits}
    (h : Shaped shortest first ts out) : Shaped shortest first (t :: ts) out := by
  rcases h with ⟨tables, hnames, rfl⟩ | htorn
  · exact Or.inl ⟨tables, hnames.cons t, rfl⟩
  · exact Or.inr htorn.skip

/-! ### All tables -/

variable {streamTable : Bool → Identifier → Streamed Bool}
  {carried : Identifier → Except Fault (Option (List (Row Stored)))}

/-- What the loop over the tables has put out where it stops. -/
def Broken (stays sound : Prop) (shortest : ℚ → CodeUnits) (first : Bool) (ts : List Identifier)
    (e : Stop Fault) (out : CodeUnits) : Prop :=
  Excused stays sound e ∧ ∃ full, out <+: full ∧ Shaped shortest first ts full

theorem emits_tables {ts : List Identifier}
    (h : ∀ t ∈ ts, StreamsTable stays sound shortest streamTable carried t) (first : Bool) :
    Emits stays (streamTables streamTable first ts)
      (fun _ out =>
        (∃ tables, readTables carried ts = .ok tables ∧ out = tablesText shortest first tables) ∨
        (¬ sound ∧ Torn shortest first ts out))
      (Broken stays sound shortest first ts) := by
  induction ts generalizing first with
  | nil => exact Emits.pure (Or.inl ⟨[], rfl, rfl⟩)
  | cons t ts ih =>
    have hrest := ih fun u hu => h u (List.mem_cons_of_mem t hu)
    rw [streamTables]
    apply Emits.bind (h t List.mem_cons_self first)
    · rintro next out (⟨rows, hcarried, rfl, rfl⟩ | ⟨hsound, rfl, rows, hrows, rfl⟩)
      · cases rows with
        | none =>
          rw [Option.isNone_none, Bool.and_true]
          apply Emits.weaken (hrest first)
          · rintro next out (⟨tables, hread, rfl⟩ | ⟨hsound, htorn⟩)
            · refine Or.inl ⟨tables, ?_, rfl⟩
              rw [readTables, hcarried, hread]
              rfl
            · exact Or.inr ⟨hsound, htorn.skip⟩
          · rintro e out ⟨hexcused, full, hout, hfull⟩
            exact ⟨hexcused, full, hout, hfull.skip⟩
        | some rows =>
          rw [Option.isNone_some, Bool.and_false]
          apply Emits.weaken (hrest false)
          · rintro next out (⟨tables, hread, rfl⟩ | ⟨hsound, htorn⟩)
            · refine Or.inl ⟨(t, rows) :: tables, ?_, rfl⟩
              rw [readTables, hcarried, hread]
              rfl
            · exact Or.inr ⟨hsound, htorn.cons rows⟩
          · rintro e out ⟨hexcused, full, hout, hfull⟩
            exact ⟨hexcused, _, (List.prefix_append_right_inj _).mpr hout, hfull.cons rows⟩
      · apply Emits.weaken (hrest next)
        · rintro _ out (⟨tables, hread, rfl⟩ | ⟨-, htorn⟩)
          · exact Or.inr ⟨hsound, torn_open hrows (Or.inl ⟨tables, readTables_sublist hread, rfl⟩)⟩
          · exact Or.inr ⟨hsound, torn_open hrows (Or.inr htorn)⟩
        · rintro e out ⟨hexcused, full, hout, hfull⟩
          exact ⟨hexcused, _, (List.prefix_append_right_inj _).mpr hout,
            Or.inr (torn_open hrows hfull)⟩
    · rintro e out ⟨hexcused, rows, hout⟩
      refine ⟨hexcused, _, hout, Or.inl ⟨[(t, rows)], (List.nil_sublist ts).cons_cons t, ?_⟩⟩
      rw [tablesText, tablesText, List.append_nil]

end Streams

end XChainSync.Snapshots
