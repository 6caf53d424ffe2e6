import Mathlib.Data.List.Forall2
import Mathlib.Data.List.Nodup
import Mathlib.Logic.Equiv.Defs

/-!
# Formats and the fields of records

A `Format` writes the values of a type as trees and reads them back. `Fits` says which
values it has room for: those come back as they were, and what it reads fits. `Fields`
are named fields, put together one by one into those of a record.

* `Format.refine`, `Format.congr`, `Format.list`, `Format.option`, `Format.table`: formats of
  restrictions, of records known by an equivalence, of lists, options and enumerations.
* `Fields.one`, `Fields.and`, `Fields.congr`: the fields of a record.
* `Format.normal`: writing what was read, and reading that, changes nothing more.
* `Format.Takes`: which trees of a set a format reads, writing them back into the set.
* `Format.Exact`: a format reads a value from the tree it writes for it, and from no other.
-/

namespace Codec

variable {κ δ α β : Type*}

/-- A list is read when each of its elements is. -/
theorem mapM_eq_some {f : δ → Option α} {ds : List δ} {as : List α} :
    ds.mapM f = some as ↔ List.Forall₂ (fun d a => f d = some a) ds as := by
  induction ds generalizing as with
  | nil => simp [List.forall₂_nil_left_iff, eq_comm]
  | cons d rest ih =>
    rw [List.mapM_cons]
    constructor
    · intro h
      obtain ⟨a, ha, h⟩ := Option.bind_eq_some_iff.1 h
      obtain ⟨as', has, h⟩ := Option.bind_eq_some_iff.1 h
      cases h
      exact .cons ha (ih.1 has)
    · rintro (_ | ⟨ha, has⟩)
      rw [ha, ih.2 has]
      rfl

/-- A way to write values as trees, and to read them back. -/
structure Format (δ α : Type*) where
  write : α → δ
  read : δ → Option α
  /-- the values the format has room for -/
  Fits : α → Prop
  read_write : ∀ {a}, Fits a → read (write a) = some a
  fits_of_read : ∀ {d a}, read d = some a → Fits a

/-- The named fields of a record; they are read from whatever gives a tree for a name. -/
structure Fields (κ δ α : Type*) where
  names : List κ
  write : α → List (κ × δ)
  read : (κ → Option δ) → Option α
  Fits : α → Prop
  names_write : ∀ a, (write a).map Prod.fst = names
  read_write : ∀ {a get}, Fits a → (∀ f ∈ write a, get f.1 = some f.2) → read get = some a
  fits_of_read : ∀ {get a}, read get = some a → Fits a

/-! ## Formats -/

namespace Format

variable (F : Format δ α)

/-- Reading refuses what `p` does not hold of. -/
def refine (p : α → Bool) : Format δ α where
  write := F.write
  read d := (F.read d).filter p
  Fits a := F.Fits a ∧ p a = true
  read_write h := by rw [F.read_write h.1, Option.filter_some, if_pos h.2]
  fits_of_read h := by
    obtain ⟨hread, hp⟩ := Option.filter_eq_some_iff.1 h
    exact ⟨F.fits_of_read hread, hp⟩

/-- The same trees for the values of an equivalent type. -/
def congr (e : α ≃ β) : Format δ β where
  write b := F.write (e.symm b)
  read d := (F.read d).map e
  Fits b := F.Fits (e.symm b)
  read_write h := by rw [F.read_write h, Option.map_some, e.apply_symm_apply]
  fits_of_read h := by
    obtain ⟨a, hread, rfl⟩ := Option.map_eq_some_iff.1 h
    rw [e.symm_apply_apply]
    exact F.fits_of_read hread

/-- Lists, when the trees have room for lists of trees. -/
def list (nest : Format δ (List δ)) (hnest : ∀ ds, nest.Fits ds) : Format δ (List α) where
  write as := nest.write (as.map F.write)
  read d := (nest.read d).bind (List.mapM F.read)
  Fits as := ∀ a ∈ as, F.Fits a
  read_write {as} h := by
    rw [nest.read_write (hnest _), Option.bind_some, mapM_eq_some, List.forall₂_map_left_iff,
      List.forall₂_same]
    exact fun a ha => F.read_write (h a ha)
  fits_of_read {d as} h := by
    obtain ⟨ds, -, hread⟩ := Option.bind_eq_some_iff.1 h
    have hall := mapM_eq_some.1 hread
    clear h hread
    induction hall with
    | nil => exact fun a ha => absurd ha List.not_mem_nil
    | cons hd _ ih => exact List.forall_mem_cons.2 ⟨F.fits_of_read hd, ih⟩

/-- Options, when the trees have one for `none` that stands for no value. -/
def option (null : δ) (isNull : δ → Bool) (hnull : isNull null = true)
    (hwrite : ∀ a, isNull (F.write a) = false) : Format δ (Option α) where
  write a := a.elim null F.write
  read d := if isNull d then some none else (F.read d).map some
  Fits a := ∀ x ∈ a, F.Fits x
  read_write {a} h := by
    cases a with
    | none => exact if_pos hnull
    | some x => simp [hwrite x, F.read_write (h x rfl)]
  fits_of_read {d a} h x hx := by
    split at h
    · cases h; cases hx
    · obtain ⟨y, hread, rfl⟩ := Option.map_eq_some_iff.1 h
      cases hx
      exact F.fits_of_read hread

/-- Enumerations, by the names of their values. -/
def table [DecidableEq κ] (leaf : Format δ κ) (hleaf : ∀ k, leaf.Fits k) (all : List α) (name : α → κ)
    (hall : ∀ a, a ∈ all) (hname : ∀ a ∈ all, ∀ b ∈ all, name a = name b → a = b) : Format δ α where
  write a := leaf.write (name a)
  read d := (leaf.read d).bind fun k => all.find? (name · = k)
  Fits _ := True
  read_write {a} _ := by
    rw [leaf.read_write (hleaf _), Option.bind_some]
    cases hfind : all.find? (name · = name a) with
    | none => exact absurd (hall a) fun h => by simpa using List.find?_eq_none.1 hfind a h
    | some b =>
      have hb : name b = name a := by simpa using List.find?_some hfind
      rw [hname b (hall b) a (hall a) hb]
  fits_of_read _ := trivial

/-- **Reading is stable**: what was read is read again from what it is written as. -/
theorem normal {d : δ} {a : α} (h : F.read d = some a) : F.read (F.write a) = some a :=
  F.read_write (F.fits_of_read h)

end Format

/-! ## Fields -/

namespace Fields

/-- One field. -/
def one (name : κ) (F : Format δ α) : Fields κ δ α where
  names := [name]
  write a := [(name, F.write a)]
  read get := (get name).bind F.read
  Fits := F.Fits
  names_write _ := rfl
  read_write h hget := by rw [hget _ List.mem_cons_self, Option.bind_some, F.read_write h]
  fits_of_read h := by
    obtain ⟨_, -, hread⟩ := Option.bind_eq_some_iff.1 h
    exact F.fits_of_read hread

/-- The fields of a pair. -/
def and (F : Fields κ δ α) (G : Fields κ δ β) : Fields κ δ (α × β) where
  names := F.names ++ G.names
  write p := F.write p.1 ++ G.write p.2
  read get := (F.read get).bind fun a => (G.read get).map (a, ·)
  Fits p := F.Fits p.1 ∧ G.Fits p.2
  names_write p := by rw [List.map_append, F.names_write, G.names_write]
  read_write h hget := by
    rw [F.read_write h.1 fun f hf => hget f (List.mem_append_left _ hf),
      G.read_write h.2 fun f hf => hget f (List.mem_append_right _ hf)]
    rfl
  fits_of_read h := by
    obtain ⟨a, hF, hG⟩ := Option.bind_eq_some_iff.1 h
    obtain ⟨b, hread, rfl⟩ := Option.map_eq_some_iff.1 hG
    exact ⟨F.fits_of_read hF, G.fits_of_read hread⟩

/-- The fields of an equivalent type. -/
def congr (F : Fields κ δ α) (e : α ≃ β) : Fields κ δ β where
  names := F.names
  write b := F.write (e.symm b)
  read get := (F.read get).map e
  Fits b := F.Fits (e.symm b)
  names_write b := F.names_write _
  read_write h hget := by rw [F.read_write h hget, Option.map_some, e.apply_symm_apply]
  fits_of_read h := by
    obtain ⟨a, hread, rfl⟩ := Option.map_eq_some_iff.1 h
    rw [e.symm_apply_apply]
    exact F.fits_of_read hread

@[simp] theorem fits_one {name : κ} {F : Format δ α} {a : α} : (one name F).Fits a ↔ F.Fits a := Iff.rfl

@[simp] theorem fits_and {F : Fields κ δ α} {G : Fields κ δ β} {p : α × β} :
    (F.and G).Fits p ↔ F.Fits p.1 ∧ G.Fits p.2 := Iff.rfl

@[simp] theorem fits_congr {F : Fields κ δ α} {e : α ≃ β} {b : β} : (F.congr e).Fits b ↔ F.Fits (e.symm b) :=
  Iff.rfl

@[simp] theorem write_one {name : κ} {F : Format δ α} {a : α} : (one name F).write a = [(name, F.write a)] := rfl

@[simp] theorem write_and {F : Fields κ δ α} {G : Fields κ δ β} {p : α × β} :
    (F.and G).write p = F.write p.1 ++ G.write p.2 := rfl

@[simp] theorem write_congr {F : Fields κ δ α} {e : α ≃ β} {b : β} : (F.congr e).write b = F.write (e.symm b) := rfl

end Fields

/-- The first entry of a name. -/
def lookup [DecidableEq κ] (fields : List (κ × δ)) (name : κ) : Option δ :=
  (fields.find? (·.1 = name)).map (·.2)

theorem lookup_mem [DecidableEq κ] {fields : List (κ × δ)} {name : κ} {d : δ} (h : lookup fields name = some d) :
    (name, d) ∈ fields := by
  unfold lookup at h
  obtain ⟨f, hf, rfl⟩ := Option.map_eq_some_iff.1 h
  have hname : f.1 = name := by simpa using List.find?_some hf
  exact hname ▸ List.mem_of_find?_eq_some hf

/-- Where the names of interest are different, each of their entries is the first of its own. -/
theorem lookup_of_mem [DecidableEq κ] {fields : List (κ × δ)} {p : κ → Bool}
    (hnodup : ((fields.map Prod.fst).filter p).Nodup) {f : κ × δ} (hf : f ∈ fields) (hp : p f.1 = true) :
    lookup fields f.1 = some f.2 := by
  unfold lookup
  cases hfind : fields.find? (·.1 = f.1) with
  | none => exact absurd hf fun h => by simpa using List.find?_eq_none.1 hfind f h
  | some g =>
    have hname : g.1 = f.1 := by simpa using List.find?_some hfind
    have hg : g ∈ fields.filter (p ∘ Prod.fst) :=
      List.mem_filter.2 ⟨List.mem_of_find?_eq_some hfind, by rw [Function.comp_apply, hname, hp]⟩
    rw [List.filter_map] at hnodup
    rw [Option.map_some, List.inj_on_of_nodup_map hnodup hg (List.mem_filter.2 ⟨hf, hp⟩) hname]

/-! ## What a format takes -/

/-- Of the trees of `L`, the format reads those of `M` and no others, and writes what it read as one of `L`. -/
structure Format.Takes (F : Format δ α) (L M : δ → Prop) : Prop where
  reads : ∀ d, L d → M d → ∃ a, F.read d = some a ∧ L (F.write a)
  only : ∀ d a, L d → F.read d = some a → M d

/-- So do the fields, with a tree of `L name` for each name. -/
structure Fields.Takes (F : Fields κ δ α) (L : κ → δ → Prop) (M : δ → Prop) : Prop where
  reads : ∀ get : κ → Option δ, (∀ name ∈ F.names, ∃ d, get name = some d ∧ L name d ∧ M d) →
    ∃ a, F.read get = some a ∧ ∀ f ∈ F.write a, L f.1 f.2
  only : ∀ get a, F.read get = some a → ∀ name ∈ F.names, ∀ d, get name = some d → L name d → M d

section Takes

variable {F : Format δ α} {K M : δ → Prop} {L : κ → δ → Prop}

theorem Format.Takes.isSome_iff (h : F.Takes K M) {d : δ} (hd : K d) : (F.read d).isSome = true ↔ M d := by
  constructor
  · intro hsome
    obtain ⟨a, ha⟩ := Option.isSome_iff_exists.1 hsome
    exact h.only d a hd ha
  · intro hM
    obtain ⟨a, ha, -⟩ := h.reads d hd hM
    rw [ha]
    rfl

/-- What was read is written as one of the set. -/
theorem Format.Takes.written (h : F.Takes K M) {d : δ} {a : α} (hd : K d) (ha : F.read d = some a) : K (F.write a) := by
  obtain ⟨b, hb, hK⟩ := h.reads d hd (h.only d a hd ha)
  exact Option.some.inj (hb.symm.trans ha) ▸ hK

theorem Format.Takes.list {nest : Format δ (List δ)} {hnest : ∀ ds, nest.Fits ds} (h : F.Takes K M)
    {ds : List δ} {d : δ} (hd : nest.read d = some ds) (hds : ∀ x ∈ ds, K x) (hM : ∀ x ∈ ds, M x) :
    ∃ as, (F.list nest hnest).read d = some as ∧ ∀ x ∈ as.map F.write, K x := by
  show ∃ as, (nest.read d).bind (List.mapM F.read) = some as ∧ _
  rw [hd, Option.bind_some]
  clear hd
  induction ds with
  | nil => exact ⟨[], rfl, fun x hx => absurd hx List.not_mem_nil⟩
  | cons x rest ih =>
    obtain ⟨hx, hrest⟩ := List.forall_mem_cons.1 hds
    obtain ⟨hMx, hMrest⟩ := List.forall_mem_cons.1 hM
    obtain ⟨a, ha, hK⟩ := h.reads x hx hMx
    obtain ⟨as, has, hall⟩ := ih hrest hMrest
    exact ⟨a :: as, by simp [List.mapM_cons, ha, has], List.forall_mem_cons.2 ⟨hK, hall⟩⟩

theorem Format.Takes.list_only {nest : Format δ (List δ)} {hnest : ∀ ds, nest.Fits ds} (h : F.Takes K M)
    {ds : List δ} {d : δ} {as : List α} (hd : nest.read d = some ds) (hds : ∀ x ∈ ds, K x)
    (hread : (F.list nest hnest).read d = some as) : ∀ x ∈ ds, M x := by
  replace hread : (nest.read d).bind (List.mapM F.read) = some as := hread
  rw [hd, Option.bind_some] at hread
  have hall := mapM_eq_some.1 hread
  clear hd hread
  induction hall with
  | nil => exact fun x hx => absurd hx List.not_mem_nil
  | cons ha _ ih =>
    obtain ⟨hx, hrest⟩ := List.forall_mem_cons.1 hds
    exact List.forall_mem_cons.2 ⟨h.only _ _ hx ha, ih hrest⟩

theorem Fields.takes_one {name : κ} (h : F.Takes (L name) M) : (Fields.one name F).Takes L M where
  reads get hget := by
    obtain ⟨d, hd, hL, hM⟩ := hget name List.mem_cons_self
    obtain ⟨a, ha, hwritten⟩ := h.reads d hL hM
    refine ⟨a, ?_, fun f hf => ?_⟩
    · show (get name).bind F.read = some a
      rw [hd]
      exact ha
    · obtain rfl := List.mem_singleton.1 hf
      exact hwritten
  only get a hread name' hname d hd hL := by
    obtain rfl := List.mem_singleton.1 hname
    have hread : (get name').bind F.read = some a := hread
    rw [hd] at hread
    exact h.only d a hL hread

theorem Fields.Takes.and {F : Fields κ δ α} {G : Fields κ δ β} (hF : F.Takes L M) (hG : G.Takes L M) :
    (F.and G).Takes L M where
  reads get hget := by
    obtain ⟨a, ha, hleft⟩ := hF.reads get fun n hn => hget n (List.mem_append_left _ hn)
    obtain ⟨b, hb, hright⟩ := hG.reads get fun n hn => hget n (List.mem_append_right _ hn)
    refine ⟨(a, b), ?_, fun f hf => (List.mem_append.1 hf).elim (hleft f) (hright f)⟩
    show (F.read get).bind (fun a => (G.read get).map (a, ·)) = some (a, b)
    rw [ha, hb]
    rfl
  only get p hread name hname := by
    obtain ⟨a, ha, hread⟩ := Option.bind_eq_some_iff.1 hread
    obtain ⟨b, hb, -⟩ := Option.map_eq_some_iff.1 hread
    exact (List.mem_append.1 hname).elim (hF.only get a ha name) (hG.only get b hb name)

theorem Fields.Takes.congr {F : Fields κ δ α} {e : α ≃ β} (h : F.Takes L M) : (F.congr e).Takes L M where
  reads get hget := by
    obtain ⟨a, ha, hwritten⟩ := h.reads get hget
    refine ⟨e a, ?_, ?_⟩
    · show (F.read get).map e = some (e a)
      rw [ha]
      rfl
    · rw [Fields.write_congr, e.symm_apply_apply]
      exact hwritten
  only get b hread := by
    obtain ⟨a, ha, -⟩ := Option.map_eq_some_iff.1 hread
    exact h.only get a ha

end Takes

/-! ## What only one tree stands for -/

/-- What is read is what is written. -/
def Format.Exact (F : Format δ α) : Prop := ∀ d a, F.read d = some a → F.write a = d

/-- Fields are read where the trees are that they are written as. -/
def Fields.Exact (F : Fields κ δ α) : Prop := ∀ get a, F.read get = some a → ∀ f ∈ F.write a, get f.1 = some f.2

section Exact

variable {F : Format δ α}

theorem Format.Exact.list {nest : Format δ (List δ)} {hnest : ∀ ds, nest.Fits ds} (h : F.Exact)
    (hn : nest.Exact) : (F.list nest hnest).Exact := by
  intro d as hlist
  obtain ⟨ds, hds, hread⟩ := Option.bind_eq_some_iff.1 hlist
  have hall : as.map F.write = ds := by
    have hall := mapM_eq_some.1 hread
    clear hread hds hlist
    induction hall with
    | nil => rfl
    | cons ha _ ih => rw [List.map_cons, h _ _ ha, ih]
  show nest.write (as.map F.write) = d
  rw [hall]
  exact hn d ds hds

theorem Fields.exact_one {name : κ} (h : F.Exact) : (Fields.one name F).Exact := by
  intro get a hread f hf
  obtain rfl := List.mem_singleton.1 hf
  obtain ⟨d, hd, hread⟩ := Option.bind_eq_some_iff.1 hread
  rw [hd, ← h d a hread]

theorem Fields.Exact.and {F : Fields κ δ α} {G : Fields κ δ β} (hF : F.Exact) (hG : G.Exact) : (F.and G).Exact := by
  intro get p hread f hf
  obtain ⟨a, ha, hread⟩ := Option.bind_eq_some_iff.1 hread
  obtain ⟨b, hb, rfl⟩ := Option.map_eq_some_iff.1 hread
  rcases List.mem_append.1 hf with hf | hf
  · exact hF get a ha f hf
  · exact hG get b hb f hf

theorem Fields.Exact.congr {F : Fields κ δ α} {e : α ≃ β} (h : F.Exact) : (F.congr e).Exact := by
  intro get b hread f hf
  obtain ⟨a, ha, rfl⟩ := Option.map_eq_some_iff.1 hread
  rw [Fields.write_congr, e.symm_apply_apply] at hf
  exact h get a ha f hf

/-- Entries without a name twice are those that are found, but for their order. -/
theorem perm_of_lookup [DecidableEq κ] {fields entries : List (κ × δ)} (hfields : (fields.map Prod.fst).Nodup)
    (hentries : (entries.map Prod.fst).Nodup) (hnames : ∀ f ∈ fields, f.1 ∈ entries.map Prod.fst)
    (h : ∀ f ∈ entries, lookup fields f.1 = some f.2) : fields.Perm entries := by
  refine (List.perm_ext_iff_of_nodup hfields.of_map hentries.of_map).2 fun f => ⟨fun hf => ?_, fun hf =>
    lookup_mem (h f hf)⟩
  obtain ⟨g, hg, hname⟩ := List.mem_map.1 (hnames f hf)
  have hfound : lookup fields f.1 = some f.2 :=
    lookup_of_mem (p := fun _ => true) (by rwa [List.filter_true]) hf rfl
  have hvalue : g.2 = f.2 := Option.some.inj ((h g hg).symm.trans ((congrArg (lookup fields) hname).trans hfound))
  exact (Prod.ext hname hvalue : g = f) ▸ hg

/-- Where the names are the same, in the same order, so are the values. -/
theorem values_of_lookup [DecidableEq κ] {names : List κ} {items : List δ} {entries : List (κ × δ)}
    (hnodup : names.Nodup) (hlength : items.length = names.length) (hnames : entries.map Prod.fst = names)
    (h : ∀ f ∈ entries, lookup (names.zip items) f.1 = some f.2) : items = entries.map Prod.snd := by
  subst hnames
  have hlen : items.length = entries.length := by rw [hlength, List.length_map]
  refine List.ext_getElem (by rw [hlen, List.length_map]) fun i hi _ => ?_
  have hie : i < entries.length := hlen ▸ hi
  have hmem : (entries[i].1, items[i]) ∈ (entries.map Prod.fst).zip items :=
    List.mem_iff_getElem.2 ⟨i, by simp [hlen, hie], by simp⟩
  have hfound := lookup_of_mem (p := fun _ => true)
    (by rw [List.filter_true, List.map_fst_zip (Nat.le_of_eq hlength.symm)]; exact hnodup) hmem rfl
  rw [List.getElem_map]
  exact Option.some.inj (hfound.symm.trans (h _ (List.getElem_mem hie)))

end Exact

end Codec
