import EtlPlatform.Library.SortedPage
import Mathlib.Data.Prod.Lex
import Mathlib.Order.WithBot

/-!
# Following a growing table by a keyset cursor

A table holds at most one row for each id.  Its writers insert and replace rows
and give every row they touch a key above all keys in the table.  A reader
follows the table in the order of `(key, id)`: it takes a page after its
cursor, delivers the rows of the page, and moves the cursor to the last of them.
The cursor is `⊥` before the first page.

The reader's promise is `Covered`: every row up to the cursor is delivered in
its current version.  Two facts carry it through the writers' steps.

* `Held`: the key of the cursor is no larger than some key in the table, so a
  row that is touched moves past the cursor.
* `Window`: while a page is in the reader's hands, a row up to the last row of
  the page is on it or was covered before, and a row of the page that was
  touched meanwhile is past its end.
-/

namespace EtlPlatform
namespace Library

universe u v w

section KeysetFeed

variable {ρ : Type u} {κ : Type v} {ν : Type w}
variable [LinearOrder κ] [LinearOrder ν]
variable (key : ρ → κ) (id : ρ → ν)

/-- Where a row stands in the order of the feed. -/
def position (r : ρ) : κ ×ₗ ν :=
  toLex (key r, id r)

/-- One statement of the writers: it inserts or replaces the rows `xs`. -/
def Touch (rows rows' : List ρ) : Prop :=
  ∃ xs : List ρ, (xs.map id).Nodup ∧ (∀ x ∈ xs, ∀ r ∈ rows, key r < key x) ∧
    rows'.Perm (xs ++ rows.filter (fun r => id r ∉ xs.map id))

/-- Every row up to the cursor is delivered. -/
def Covered (delivered : ρ → Prop) (rows : List ρ) (c : WithBot (κ ×ₗ ν)) : Prop :=
  ∀ r ∈ rows, (position key id r : WithBot (κ ×ₗ ν)) ≤ c → delivered r

/-- Some row of the table has at least the key of the cursor. -/
def Held (rows : List ρ) (c : WithBot (κ ×ₗ ν)) : Prop :=
  ∀ p : κ ×ₗ ν, c = p → ∃ r ∈ rows, (ofLex p).1 ≤ key r

/-- The page `batch` was read after `c`, ends at `last`, and is being delivered. -/
structure Window (rows batch : List ρ) (c : WithBot (κ ×ₗ ν)) (last : κ ×ₗ ν) : Prop where
  covers : ∀ r ∈ rows, position key id r ≤ last →
    (position key id r : WithBot (κ ×ₗ ν)) ≤ c ∨ r ∈ batch
  current : ∀ r ∈ rows, ∀ b ∈ batch, id r = id b → r = b ∨ ¬ position key id r ≤ last
  held : ∃ r ∈ rows, (ofLex last).1 ≤ key r
  after : ∀ b ∈ batch, c < (position key id b : WithBot (κ ×ₗ ν))
  upto : c ≤ (last : WithBot (κ ×ₗ ν))
  distinct : (batch.map id).Nodup

variable {key id} {rows rows' batch : List ρ} {c : WithBot (κ ×ₗ ν)} {last : κ ×ₗ ν}

/-- Before the first page nothing is promised. -/
theorem covered_bot
    (delivered : ρ → Prop) (rows : List ρ) :
    Covered key id delivered rows ⊥ := by
  intro r _ hle
  exact absurd (le_bot_iff.mp hle) WithBot.coe_ne_bot

omit [LinearOrder ν] in
theorem held_bot
    (rows : List ρ) :
    Held key rows (⊥ : WithBot (κ ×ₗ ν)) := by
  intro p hp
  exact absurd hp.symm WithBot.coe_ne_bot

theorem key_le_of_position_le
    {r : ρ} {p : κ ×ₗ ν} (h : position key id r ≤ p) :
    key r ≤ (ofLex p).1 := by
  rcases Prod.Lex.le_iff.mp h with hlt | ⟨heq, -⟩
  · exact hlt.le
  · exact heq.le

/-! ## The writers -/

namespace Touch

/-- A row of the new table was there before, or has a key above all keys of the old one. -/
theorem mem
    (h : Touch key id rows rows') {r : ρ} (hr : r ∈ rows') :
    r ∈ rows ∨ ∀ r₀ ∈ rows, key r₀ < key r := by
  obtain ⟨xs, -, hkeys, hperm⟩ := h
  rcases List.mem_append.mp (hperm.mem_iff.mp hr) with hx | hold
  · exact Or.inr (hkeys r hx)
  · exact Or.inl (List.mem_filter.mp hold).1

/-- No key is lost without a larger one in its place. -/
theorem exists_key_le
    (h : Touch key id rows rows') {r : ρ} (hr : r ∈ rows) :
    ∃ r' ∈ rows', key r ≤ key r' := by
  obtain ⟨xs, -, hkeys, hperm⟩ := h
  by_cases hid : id r ∈ xs.map id
  · obtain ⟨x, hx, -⟩ := List.mem_map.mp hid
    exact ⟨x, hperm.mem_iff.mpr (List.mem_append_left _ hx), (hkeys x hx r hr).le⟩
  · have hkept : r ∈ rows.filter (fun r => id r ∉ xs.map id) :=
      List.mem_filter.mpr ⟨hr, decide_eq_true hid⟩
    exact ⟨r, hperm.mem_iff.mpr (List.mem_append_right _ hkept), le_rfl⟩

/-- The ids stay distinct. -/
theorem nodup
    (h : Touch key id rows rows') (hrows : (rows.map id).Nodup) :
    (rows'.map id).Nodup := by
  obtain ⟨xs, hxs, -, hperm⟩ := h
  rw [(hperm.map id).nodup_iff, List.map_append, List.nodup_append]
  refine ⟨hxs, hrows.sublist (List.filter_sublist.map id), ?_⟩
  rintro a ha b hb rfl
  obtain ⟨r, hr, rfl⟩ := List.mem_map.mp hb
  exact of_decide_eq_true (List.mem_filter.mp hr).2 ha

end Touch

/-- A touched row is past every cursor the table holds. -/
theorem not_position_le_of_touched
    {r : ρ} {p : κ ×ₗ ν}
    (hnew : ∀ r₀ ∈ rows, key r₀ < key r)
    (hheld : ∃ r₀ ∈ rows, (ofLex p).1 ≤ key r₀) :
    ¬ position key id r ≤ p := by
  obtain ⟨r₀, hr₀, hle⟩ := hheld
  intro hpos
  exact absurd (key_le_of_position_le hpos) (not_le.mpr (lt_of_le_of_lt hle (hnew r₀ hr₀)))

theorem Held.touch
    (h : Held key rows c) (ht : Touch key id rows rows') :
    Held key rows' c := by
  intro p hp
  obtain ⟨r, hr, hle⟩ := h p hp
  obtain ⟨r', hr', hkey⟩ := ht.exists_key_le hr
  exact ⟨r', hr', hle.trans hkey⟩

/-- **The writers keep what is covered.** -/
theorem Covered.touch
    {delivered : ρ → Prop}
    (h : Covered key id delivered rows c) (hheld : Held key rows c)
    (ht : Touch key id rows rows') :
    Covered key id delivered rows' c := by
  intro r hr hle
  rcases ht.mem hr with hold | hnew
  · exact h r hold hle
  · obtain ⟨p, rfl⟩ := WithBot.ne_bot_iff_exists.mp (ne_bot_of_le_ne_bot WithBot.coe_ne_bot hle)
    exact absurd (WithBot.coe_le_coe.mp hle) (not_position_le_of_touched hnew (hheld p rfl))

/-- **The writers keep the window.** -/
theorem Window.touch
    (h : Window key id rows batch c last) (ht : Touch key id rows rows') :
    Window key id rows' batch c last := by
  obtain ⟨hcovers, hcurrent, hheld, hafter, hupto, hdistinct⟩ := h
  refine ⟨?_, ?_, ?_, hafter, hupto, hdistinct⟩
  · intro r hr hle
    rcases ht.mem hr with hold | hnew
    · exact hcovers r hold hle
    · exact absurd hle (not_position_le_of_touched hnew hheld)
  · intro r hr b hb hid
    rcases ht.mem hr with hold | hnew
    · exact hcurrent r hold b hb hid
    · exact Or.inr (not_position_le_of_touched hnew hheld)
  · obtain ⟨r, hr, hle⟩ := hheld
    obtain ⟨r', hr', hkey⟩ := ht.exists_key_le hr
    exact ⟨r', hr', hle.trans hkey⟩

/-! ## The reader -/

omit [LinearOrder ν] in
theorem eq_of_id_eq
    (hrows : (rows.map id).Nodup) {a b : ρ} (ha : a ∈ rows) (hb : b ∈ rows) (h : id a = id b) :
    a = b :=
  List.inj_on_of_nodup_map hrows ha hb h

/-- Where no two rows share a position, a page after the cursor holds every row up to its
last one that is not behind the cursor. -/
theorem position_le_or_mem_page
    {le : ρ → ρ → Prop} [DecidableRel le] {p : ρ → Bool} {n : ℕ}
    (hle : ∀ a b, le a b ↔ position key id a ≤ position key id b)
    (hp : ∀ r ∈ rows, p r = true ↔ c < (position key id r : WithBot (κ ×ₗ ν)))
    (hrows : (rows.map (position key id)).Nodup)
    (hne : page le p n rows ≠ []) {r : ρ} (hr : r ∈ rows)
    (hpos : position key id r ≤ position key id ((page le p n rows).getLast hne)) :
    (position key id r : WithBot (κ ×ₗ ν)) ≤ c ∨ r ∈ page le p n rows := by
  have : Std.Total le := ⟨fun a b => by rw [hle, hle]; exact le_total _ _⟩
  have : IsTrans ρ le := ⟨fun a b d hab hbd => (hle a d).mpr (((hle a b).mp hab).trans
    ((hle b d).mp hbd))⟩
  have hanti : ∀ a ∈ rows, ∀ b ∈ rows, le a b → le b a → a = b := by
    intro a ha b hb hab hba
    exact List.inj_on_of_nodup_map hrows ha hb
      (le_antisymm ((hle a b).mp hab) ((hle b a).mp hba))
  by_cases hc : (position key id r : WithBot (κ ×ₗ ν)) ≤ c
  · exact Or.inl hc
  · exact Or.inr (mem_page_of_le_getLast le hanti hne hr ((hp r hr).mpr (not_le.mp hc))
      ((hle _ _).mpr hpos))

omit [LinearOrder κ] [LinearOrder ν] in
theorem nodup_position
    (hrows : (rows.map id).Nodup) :
    (rows.map (position key id)).Nodup := by
  refine List.Nodup.of_map (fun q => (ofLex q).2) ?_
  rw [List.map_map]
  exact hrows

/-- **A page opens a window.** -/
theorem Window.of_page
    {le : ρ → ρ → Prop} [DecidableRel le] {p : ρ → Bool} {n : ℕ}
    (hle : ∀ a b, le a b ↔ position key id a ≤ position key id b)
    (hp : ∀ r ∈ rows, p r = true ↔ c < (position key id r : WithBot (κ ×ₗ ν)))
    (hrows : (rows.map id).Nodup)
    (hne : page le p n rows ≠ []) :
    Window key id rows (page le p n rows) c
      (position key id ((page le p n rows).getLast hne)) := by
  have hlast := mem_page le (List.getLast_mem hne)
  refine ⟨?_, ?_, ⟨_, hlast.1, le_rfl⟩, ?_, ((hp _ hlast.1).mp hlast.2).le, ?_⟩
  · intro r hr hpos
    exact position_le_or_mem_page hle hp (nodup_position hrows) hne hr hpos
  · intro r hr b hb hid
    exact Or.inl (eq_of_id_eq hrows hr (mem_page le hb).1 hid)
  · intro b hb
    obtain ⟨hmem, hcond⟩ := mem_page le hb
    exact (hp b hmem).mp hcond
  · exact page_nodup_map le hrows

/-- A row that was covered before the page is not touched by its delivery. -/
theorem Window.not_mem_batch
    (h : Window key id rows batch c last) {r : ρ} (hr : r ∈ rows)
    (hle : (position key id r : WithBot (κ ×ₗ ν)) ≤ c) :
    id r ∉ batch.map id := by
  intro hid
  obtain ⟨b, hb, heq⟩ := List.mem_map.mp hid
  rcases h.current r hr b hb heq.symm with rfl | hpast
  · exact absurd (h.after r hb) (not_lt.mpr hle)
  · exact hpast (WithBot.coe_le_coe.mp (hle.trans h.upto))

/-- Delivering rows of the page keeps what was covered before it. -/
theorem Covered.deliver
    {delivered delivered' : ρ → Prop}
    (h : Covered key id delivered rows c) (hwindow : Window key id rows batch c last)
    (hkeep : ∀ r ∈ rows, id r ∉ batch.map id → delivered r → delivered' r) :
    Covered key id delivered' rows c := by
  intro r hr hle
  exact hkeep r hr (hwindow.not_mem_batch hr hle) (h r hr hle)

/-- **Once the page is delivered, the cursor may move to its end.** -/
theorem Covered.advance
    {delivered : ρ → Prop}
    (h : Covered key id delivered rows c) (hwindow : Window key id rows batch c last)
    (hbatch : ∀ b ∈ batch, delivered b) :
    Covered key id delivered rows last := by
  intro r hr hle
  rcases hwindow.covers r hr (WithBot.coe_le_coe.mp hle) with hbefore | hmem
  · exact h r hr hbefore
  · exact hbatch r hmem

/-- In a table that stays as it is, a page that is delivered moves the cursor to its end. -/
theorem Covered.advance_page
    {delivered : ρ → Prop} {le : ρ → ρ → Prop} [DecidableRel le] {p : ρ → Bool} {n : ℕ}
    (h : Covered key id delivered rows c)
    (hle : ∀ a b, le a b ↔ position key id a ≤ position key id b)
    (hp : ∀ r ∈ rows, p r = true ↔ c < (position key id r : WithBot (κ ×ₗ ν)))
    (hrows : (rows.map (position key id)).Nodup)
    (hne : page le p n rows ≠ [])
    (hpage : ∀ r ∈ page le p n rows, delivered r) :
    Covered key id delivered rows (position key id ((page le p n rows).getLast hne)) := by
  intro r hr hpos
  rcases position_le_or_mem_page hle hp hrows hne hr (WithBot.coe_le_coe.mp hpos) with
    hbefore | hmem
  · exact h r hr hbefore
  · exact hpage r hmem

/-- **Nothing is left when a page comes back empty.** -/
theorem Covered.of_page_eq_nil
    {delivered : ρ → Prop} {le : ρ → ρ → Prop} [DecidableRel le] {p : ρ → Bool} {n : ℕ}
    (h : Covered key id delivered rows c)
    (hp : ∀ r ∈ rows, p r = true ↔ c < (position key id r : WithBot (κ ×ₗ ν)))
    (hn : 0 < n) (hnil : page le p n rows = []) :
    ∀ r ∈ rows, delivered r := by
  intro r hr
  refine h r hr (not_lt.mp (fun hlt => ?_))
  have hfalse := (page_eq_nil_iff le hn).mp hnil r hr
  rw [(hp r hr).mpr hlt] at hfalse
  cases hfalse

theorem Window.held_last
    (h : Window key id rows batch c last) :
    Held key rows (last : WithBot (κ ×ₗ ν)) := by
  intro p hp
  obtain rfl := WithBot.coe_inj.mp hp
  exact h.held

end KeysetFeed

end Library
end EtlPlatform
