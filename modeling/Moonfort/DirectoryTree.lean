import Mathlib.Data.List.Sort
import Mathlib.Data.UInt

/-!
# Directory trees and walks over them

A directory tree as its listings show it, its items in the order of a walk that
sorts each listing, and walkers that visit one item after another. What a walk does
is what its visits do in that order, whatever the order of the listings.
-/

namespace Moonfort.DirectoryTree

/-- A name of a directory entry. -/
abbrev Name : Type := List UInt8

/-- The bytes of a relative path; none for the root of the walk. -/
abbrev Path : Type := List UInt8

/-- What a directory entry is. -/
inductive Node where
  | regular (content : List UInt8)
  | directory (entries : List (Name × Node))
  | symlink (target : List UInt8)
  | special

/-- Induction over a tree, with the entries of a directory at once. -/
theorem Node.induction {motive : Node → Prop} (regular : ∀ content, motive (.regular content))
    (directory : ∀ entries, (∀ entry ∈ entries, motive entry.2) → motive (.directory entries))
    (symlink : ∀ target, motive (.symlink target)) (special : motive .special) (node : Node) :
    motive node := by
  refine @Node.rec motive (fun entries => ∀ entry ∈ entries, motive entry.2)
    (fun entry => motive entry.2) regular directory symlink special ?_ ?_ ?_ node
  · intro entry hentry
    exact absurd hentry List.not_mem_nil
  · intro first rest hfirst hrest entry hentry
    rcases List.mem_cons.mp hentry with rfl | hmem
    · exact hfirst
    · exact hrest entry hmem
  · intro name node hnode
    exact hnode

/-- A name that a directory can hold. -/
def IsName (name : Name) : Prop :=
  name ≠ [] ∧ 0 ∉ name ∧ 47 ∉ name ∧ name ≠ [46] ∧ name ≠ [46, 46]

instance (name : Name) : Decidable (IsName name) := inferInstanceAs (Decidable (_ ∧ _))

/-- Each directory of the tree holds different names. -/
inductive Node.WellFormed : Node → Prop
  | regular (content : List UInt8) : Node.WellFormed (.regular content)
  | directory {entries : List (Name × Node)} (hnodup : (entries.map Prod.fst).Nodup)
      (hnames : ∀ entry ∈ entries, IsName entry.1)
      (hnodes : ∀ entry ∈ entries, Node.WellFormed entry.2) : Node.WellFormed (.directory entries)
  | symlink (target : List UInt8) : Node.WellFormed (.symlink target)
  | special : Node.WellFormed .special

/-- The tree below a directory. -/
structure Tree where
  entries : List (Name × Node)
  wellFormed : (Node.directory entries).WellFormed

/-! ## The order of names -/

/-- `strcmp(a, b) <= 0`. -/
def nameLe (a b : Name) : Bool := decide (a ≤ b)

/-- Names in order. -/
def sortNames (names : List Name) : List Name := names.mergeSort nameLe

/-- Named values in the order of their names. -/
def sortEntries {β : Type} (entries : List (Name × β)) : List (Name × β) :=
  entries.mergeSort fun a b => nameLe a.1 b.1

/-- The order of names is transitive. -/
theorem nameLe_trans (a b c : Name) (hab : nameLe a b = true) (hbc : nameLe b c = true) :
    nameLe a c = true := by
  rw [nameLe, decide_eq_true_eq] at *
  exact List.le_trans hab hbc

/-- The order of names is total. -/
theorem nameLe_total (a b : Name) : (nameLe a b || nameLe b a) = true := by
  simp only [nameLe, Bool.or_eq_true, decide_eq_true_eq]
  exact List.le_total a b

/-- The order of names is antisymmetric. -/
theorem nameLe_antisymm {a b : Name} (hab : nameLe a b = true) (hba : nameLe b a = true) :
    a = b := by
  rw [nameLe, decide_eq_true_eq] at *
  exact List.le_antisymm hab hba

/-- Sorting keeps the entries. -/
theorem sortEntries_perm {β : Type} (entries : List (Name × β)) :
    (sortEntries entries).Perm entries :=
  List.mergeSort_perm entries _

/-- Sorting commutes with a change of the values. -/
theorem sortEntries_map {β γ : Type} (f : Name → β → γ) (entries : List (Name × β)) :
    sortEntries (entries.map fun entry => (entry.1, f entry.1 entry.2)) =
      (sortEntries entries).map fun entry => (entry.1, f entry.1 entry.2) :=
  (List.map_mergeSort (f := fun entry : Name × β => (entry.1, f entry.1 entry.2))
    fun _ _ _ _ => rfl).symm

/-- The names of a directory are sorted alike from every listing. -/
theorem sortNames_eq {β : Type} {names : List Name} {entries : List (Name × β)}
    (h : names.Perm (entries.map Prod.fst)) :
    sortNames names = (sortEntries entries).map Prod.fst := by
  have hsorted : (sortNames names).Pairwise fun a b => nameLe a b = true :=
    List.pairwise_mergeSort nameLe_trans nameLe_total names
  have hentries : ((sortEntries entries).map Prod.fst).Pairwise fun a b => nameLe a b = true :=
    List.pairwise_map.mpr (List.pairwise_mergeSort (fun a b c => nameLe_trans a.1 b.1 c.1)
      (fun a b => nameLe_total a.1 b.1) entries)
  have hperm : (sortNames names).Perm ((sortEntries entries).map Prod.fst) :=
    ((List.mergeSort_perm names nameLe).trans h).trans ((sortEntries_perm entries).map _).symm
  exact hperm.eq_of_pairwise (fun _ _ _ _ => nameLe_antisymm) hsorted hentries

/-- An entry is looked up by its name when names are distinct. -/
theorem lookup_of_mem {β : Type} {entries : List (Name × β)} (h : (entries.map Prod.fst).Nodup)
    {entry : Name × β} (hentry : entry ∈ entries) : entries.lookup entry.1 = some entry.2 := by
  induction entries with
  | nil => cases hentry
  | cons first rest ih =>
    rw [List.map_cons, List.nodup_cons] at h
    obtain ⟨hfirst, hrest⟩ := h
    cases hentry with
    | head => rw [List.lookup_cons_self]
    | tail _ hmem =>
      have hne : entry.1 ≠ first.1 := by
        intro heq
        exact hfirst (heq ▸ List.mem_map_of_mem hmem)
      have hbeq : (entry.1 == first.1) = false := beq_false_of_ne hne
      rw [List.lookup_cons, hbeq]
      exact ih hrest hmem

/-! ## The items of a tree -/

/-- What a walk sees of an entry. -/
inductive Kind where
  | regular (content : List UInt8)
  | directory
  | symlink (target : List UInt8)
  | special
  deriving DecidableEq

/-- The bytes of a regular file; none of anything else. -/
def Kind.content : Kind → List UInt8
  | .regular content => content
  | _ => []

/-- A regular file or a directory. -/
def Kind.IsPlain : Kind → Prop
  | .regular _ | .directory => True
  | _ => False

/-- `prefix`, a slash unless it is empty, and a name. -/
def join (parent : Path) (name : Name) : Path :=
  if parent.isEmpty then name else parent ++ 47 :: name

/-- An entry of a tree and where it stands. -/
structure Item where
  parent : Path
  name : Name
  kind : Kind
  deriving DecidableEq

/-- The relative path of an item. -/
def Item.path (item : Item) : Path := join item.parent item.name

mutual

/-- An entry and everything below it, in the order of a walk. -/
def Node.items : Node → Path → Name → List Item
  | .regular content, parent, name => [⟨parent, name, .regular content⟩]
  | .directory entries, parent, name => ⟨parent, name, .directory⟩ ::
      (sortEntries (namedItems entries (join parent name))).flatMap Prod.snd
  | .symlink target, parent, name => [⟨parent, name, .symlink target⟩]
  | .special, parent, name => [⟨parent, name, .special⟩]

/-- The items of each entry of a directory. -/
def namedItems : List (Name × Node) → Path → List (Name × List Item)
  | [], _ => []
  | (name, node) :: rest, parent => (name, node.items parent name) :: namedItems rest parent

end

/-- Everything below a directory, in the order of a walk. -/
def itemsBelow (entries : List (Name × Node)) (parent : Path) : List Item :=
  (sortEntries entries).flatMap fun entry => entry.2.items parent entry.1

/-- The items of a tree in the order of a walk. -/
def Tree.items (tree : Tree) : List Item := itemsBelow tree.entries []

/-- The named items of entries, one entry after the other. -/
theorem namedItems_eq (entries : List (Name × Node)) (parent : Path) :
    namedItems entries parent =
      entries.map fun entry => (entry.1, entry.2.items parent entry.1) := by
  induction entries with
  | nil => rfl
  | cons entry rest ih => rw [namedItems, ih, List.map_cons]

/-- The items of a directory: itself and those below it. -/
theorem Node.items_directory (entries : List (Name × Node)) (parent : Path) (name : Name) :
    (Node.directory entries).items parent name =
      ⟨parent, name, .directory⟩ :: itemsBelow entries (join parent name) := by
  rw [Node.items, namedItems_eq,
    sortEntries_map (fun childName node => Node.items node (join parent name) childName),
    List.flatMap_map, itemsBelow]

/-- The items of an entry start with the entry itself. -/
theorem Node.items_eq_cons (node : Node) (parent : Path) (name : Name) :
    ∃ kind rest, node.items parent name = ⟨parent, name, kind⟩ :: rest := by
  cases node <;> exact ⟨_, _, by rw [Node.items]⟩

/-- The bytes of a joined path are those of its parts, and the slash. -/
theorem join_forall {ok : UInt8 → Prop} (hslash : ok 47) {parent : Path} {name : Name}
    (hparent : ∀ byte ∈ parent, ok byte) (hname : ∀ byte ∈ name, ok byte) :
    ∀ byte ∈ join parent name, ok byte := by
  intro byte hbyte
  unfold join at hbyte
  split at hbyte
  · exact hname byte hbyte
  · rw [List.mem_append, List.mem_cons] at hbyte
    obtain h | rfl | h := hbyte
    · exact hparent byte h
    · exact hslash
    · exact hname byte h

/-- What holds of slashes and of the bytes of all names holds of the bytes of the paths. -/
theorem Node.forall_path {ok : UInt8 → Prop} (hslash : ok 47) {node : Node} {parent : Path}
    {name : Name} (hparent : ∀ byte ∈ parent, ok byte)
    (hnames : ∀ item ∈ node.items parent name, ∀ byte ∈ item.name, ok byte) :
    ∀ item ∈ node.items parent name, ∀ byte ∈ item.path, ok byte := by
  induction node using Node.induction generalizing parent name with
  | directory entries ih =>
    rw [Node.items_directory] at hnames ⊢
    rw [List.forall_mem_cons] at hnames ⊢
    obtain ⟨hname, hbelow⟩ := hnames
    have hpath := join_forall hslash hparent hname
    refine ⟨hpath, ?_⟩
    intro item hitem
    obtain ⟨entry, hentry, hmem⟩ := List.mem_flatMap.mp hitem
    have hentry' := (sortEntries_perm entries).mem_iff.mp hentry
    apply ih entry hentry' hpath
    · intro other hother
      exact hbelow other (List.mem_flatMap.mpr ⟨entry, hentry, hother⟩)
    · exact hmem
  | _ =>
    rw [Node.items, List.forall_mem_singleton] at hnames ⊢
    exact join_forall hslash hparent hnames

/-- What holds of the bytes of all names holds of the bytes of all paths. -/
theorem Tree.forall_path (ok : UInt8 → Prop) (hslash : ok 47) {tree : Tree}
    (hnames : ∀ item ∈ tree.items, ∀ byte ∈ item.name, ok byte) :
    ∀ item ∈ tree.items, ∀ byte ∈ item.path, ok byte := by
  intro item hitem
  obtain ⟨entry, hentry, hmem⟩ := List.mem_flatMap.mp hitem
  apply Node.forall_path hslash (fun _ hbyte => absurd hbyte List.not_mem_nil) _ item hmem
  intro other hother
  exact hnames other (List.mem_flatMap.mpr ⟨entry, hentry, hother⟩)

/-! ## Walkers -/

/-- How a walker lists directories and visits entries. -/
structure Walker (σ ε : Type) where
  /-- The names of a directory in the order in which the system lists them. -/
  order : Path → List Name → List Name
  order_perm : ∀ path names, (order path names).Perm names
  /-- An error of the system at a directory. -/
  listFault : Path → Option ε
  /-- A name that the listing refuses. -/
  refuses : Name → Option ε
  /-- The error at a name that is gone. -/
  gone : ε
  visit : Path → Name → Kind → σ → Except ε σ

namespace Walker

variable {σ ε : Type} (w : Walker σ ε)

/-- The names of a directory in order. -/
def listNames (path : Path) (names : List Name) : Except ε (List Name) :=
  match w.listFault path with
  | some error => .error error
  | none =>
    match (w.order path names).findSome? w.refuses with
    | some error => .error error
    | none => .ok (sortNames (w.order path names))

/-- What a walk does at the entries of a directory, by their names. -/
abbrev Actions (σ ε : Type) : Type := List (Name × (Path → Name → σ → Except ε σ))

/-- Visit the names of a directory. -/
def visitNames (actions : Actions σ ε) (path : Path) (names : List Name) (s : σ) : Except ε σ :=
  names.foldlM (fun s name =>
    match actions.lookup name with
    | some action => action path name s
    | none => .error w.gone) s

mutual

/-- Visit an entry, and what is below it. -/
def visitNode : Node → Path → Name → σ → Except ε σ
  | .regular content, parent, name, s => w.visit parent name (.regular content) s
  | .directory entries, parent, name, s => do
    let s ← w.visit parent name .directory s
    let names ← w.listNames (join parent name) (entries.map Prod.fst)
    w.visitNames (actionsOf entries) (join parent name) names s
  | .symlink target, parent, name, s => w.visit parent name (.symlink target) s
  | .special, parent, name, s => w.visit parent name .special s

/-- What to do at the entries of a directory. -/
def actionsOf : List (Name × Node) → Actions σ ε
  | [] => []
  | (name, node) :: rest => (name, visitNode node) :: actionsOf rest

end

/-- Walk over everything below a directory. -/
def walk (entries : List (Name × Node)) (path : Path) (s : σ) : Except ε σ := do
  let names ← w.listNames path (entries.map Prod.fst)
  w.visitNames (w.actionsOf entries) path names s

/-- Visit items one after another. -/
def visitItems (items : List Item) (s : σ) : Except ε σ :=
  items.foldlM (fun s item => w.visit item.parent item.name item.kind s) s

/-- The listing of its directory does not refuse an item. -/
def Lists (item : Item) : Prop := w.refuses item.name = none

/-- An item that is a directory can be listed. -/
def Opens (item : Item) : Prop := item.kind = .directory → w.listFault item.path = none

/-- The actions of entries, one entry after the other. -/
theorem actionsOf_eq (entries : List (Name × Node)) :
    w.actionsOf entries = entries.map fun entry => (entry.1, w.visitNode entry.2) := by
  induction entries with
  | nil => rfl
  | cons entry rest ih => rw [actionsOf, ih, List.map_cons]

/-- A listing succeeds when the system and the names allow it. -/
theorem listNames_eq_ok {path : Path} {names sorted : List Name} :
    w.listNames path names = .ok sorted ↔
      w.listFault path = none ∧ (∀ name ∈ names, w.refuses name = none) ∧
        sortNames (w.order path names) = sorted := by
  have hnames : (w.order path names).findSome? w.refuses = none ↔
      ∀ name ∈ names, w.refuses name = none := by
    rw [List.findSome?_eq_none_iff]
    exact forall_congr' fun name => by rw [(w.order_perm path names).mem_iff]
  unfold listNames
  cases hfault : w.listFault path with
  | some error => simp
  | none =>
    cases hrefused : (w.order path names).findSome? w.refuses with
    | some error => simp [← hnames, hrefused]
    | none => simp [← hnames, hrefused]

/-- A fold depends on its steps at the list's elements only. -/
theorem foldlM_congr {α : Type} {f g : σ → α → Except ε σ} {list : List α}
    (h : ∀ a ∈ list, ∀ s, f s a = g s a) (s : σ) : list.foldlM f s = list.foldlM g s := by
  induction list generalizing s with
  | nil => rfl
  | cons a rest ih =>
    rw [List.foldlM_cons, List.foldlM_cons, h a (List.mem_cons_self ..)]
    congr 1
    funext s'
    exact ih (fun b hb => h b (List.mem_cons_of_mem _ hb)) s'

/-- The names of a directory are visited in the order of its sorted entries. -/
theorem visitNames_sortNames {entries : List (Name × Node)} (h : (entries.map Prod.fst).Nodup)
    {names : List Name} (hnames : names.Perm (entries.map Prod.fst)) (path : Path) (s : σ) :
    w.visitNames (w.actionsOf entries) path (sortNames names) s =
      (sortEntries entries).foldlM (fun s entry => w.visitNode entry.2 path entry.1 s) s := by
  rw [visitNames, sortNames_eq hnames, List.foldlM_map]
  apply foldlM_congr
  intro entry hentry s
  have hmem := (sortEntries_perm entries).mem_iff.mp hentry
  have haction : (entry.1, w.visitNode entry.2) ∈ w.actionsOf entries := by
    rw [actionsOf_eq]
    exact List.mem_map_of_mem hmem
  have hnodup : ((w.actionsOf entries).map Prod.fst).Nodup := by
    rw [actionsOf_eq, List.map_map]
    exact h
  have hlookup := lookup_of_mem hnodup haction
  rw [hlookup]

variable {w}

/-- Visiting two lists is visiting one after the other. -/
theorem visitItems_append (a b : List Item) (s : σ) :
    w.visitItems (a ++ b) s = (w.visitItems a s).bind (w.visitItems b) :=
  List.foldlM_append

/-- Visiting a list visits its first item and then the others. -/
theorem visitItems_cons (item : Item) (rest : List Item) (s : σ) :
    w.visitItems (item :: rest) s =
      (w.visit item.parent item.name item.kind s).bind (w.visitItems rest) :=
  List.foldlM_cons

/-- A computation that goes on ends well only if its first part does. -/
theorem bind_eq_ok {α β : Type} {x : Except ε α} {f : α → Except ε β} {value : β} :
    x.bind f = .ok value ↔ ∃ first, x = .ok first ∧ f first = .ok value := by
  cases x with
  | ok first => simp [Except.bind]
  | error error => simp [Except.bind]

/-- A walk below directories whose entries are each walked over in order. -/
theorem foldlM_visitNode_eq_ok {entries : List (Name × Node)} {path : Path}
    (ih : ∀ entry ∈ entries, ∀ s s', w.visitNode entry.2 path entry.1 s = .ok s' ↔
      (∀ item ∈ entry.2.items path entry.1, w.Opens item) ∧
        (∀ item ∈ (entry.2.items path entry.1).tail, w.Lists item) ∧
          w.visitItems (entry.2.items path entry.1) s = .ok s') (s s' : σ) :
    entries.foldlM (fun s entry => w.visitNode entry.2 path entry.1 s) s = .ok s' ↔
      (∀ entry ∈ entries, (∀ item ∈ entry.2.items path entry.1, w.Opens item) ∧
        ∀ item ∈ (entry.2.items path entry.1).tail, w.Lists item) ∧
      w.visitItems (entries.flatMap fun entry => entry.2.items path entry.1) s = .ok s' := by
  induction entries generalizing s with
  | nil => simp [visitItems]
  | cons entry rest hrest =>
    have hentry := ih entry (List.mem_cons_self ..)
    have hrest' := hrest fun other hother => ih other (List.mem_cons_of_mem _ hother)
    rw [List.foldlM_cons, List.flatMap_cons, visitItems_append, bind_eq_ok]
    change (Except.bind _ _ = _) ↔ _
    rw [bind_eq_ok]
    simp only [hentry, hrest', List.forall_mem_cons]
    constructor
    · rintro ⟨first, ⟨hopens, hlists, hfirst⟩, hall, hvisit⟩
      exact ⟨⟨⟨hopens, hlists⟩, hall⟩, first, hfirst, hvisit⟩
    · rintro ⟨⟨⟨hopens, hlists⟩, hall⟩, first, hfirst, hvisit⟩
      exact ⟨first, ⟨hopens, hlists, hfirst⟩, hall, hvisit⟩

/-- The listing refuses no item of an entry if it does not refuse the entry and nothing
below. -/
theorem lists_items (node : Node) (parent : Path) (name : Name) :
    (∀ item ∈ node.items parent name, w.Lists item) ↔
      w.refuses name = none ∧ ∀ item ∈ (node.items parent name).tail, w.Lists item := by
  obtain ⟨kind, rest, hitems⟩ := node.items_eq_cons parent name
  rw [hitems, List.forall_mem_cons, List.tail_cons]
  rfl

/-- What a walk over a directory does, from what the visits of its entries do. -/
theorem walk_eq_ok_of {entries : List (Name × Node)} {path : Path}
    (hnodup : (entries.map Prod.fst).Nodup)
    (ih : ∀ entry ∈ entries, ∀ s s', w.visitNode entry.2 path entry.1 s = .ok s' ↔
      (∀ item ∈ entry.2.items path entry.1, w.Opens item) ∧
        (∀ item ∈ (entry.2.items path entry.1).tail, w.Lists item) ∧
          w.visitItems (entry.2.items path entry.1) s = .ok s') (s s' : σ) :
    w.walk entries path s = .ok s' ↔
      w.listFault path = none ∧
        (∀ item ∈ itemsBelow entries path, w.Lists item ∧ w.Opens item) ∧
          w.visitItems (itemsBelow entries path) s = .ok s' := by
  have hperm := sortEntries_perm entries
  have hvisit : w.visitNames (w.actionsOf entries) path
      (sortNames (w.order path (entries.map Prod.fst))) s = .ok s' ↔
      (∀ entry ∈ sortEntries entries, (∀ item ∈ entry.2.items path entry.1, w.Opens item) ∧
        ∀ item ∈ (entry.2.items path entry.1).tail, w.Lists item) ∧
      w.visitItems (itemsBelow entries path) s = .ok s' := by
    rw [w.visitNames_sortNames hnodup (w.order_perm _ _)]
    exact foldlM_visitNode_eq_ok (fun entry hentry => ih entry (hperm.mem_iff.mp hentry)) s s'
  have hlists : (∀ name ∈ entries.map Prod.fst, w.refuses name = none) ↔
      ∀ entry ∈ sortEntries entries, w.refuses entry.1 = none := by
    rw [List.forall_mem_map]
    exact forall_congr' fun entry => by rw [hperm.mem_iff]
  have hitems : (∀ item ∈ itemsBelow entries path, w.Lists item ∧ w.Opens item) ↔
      ∀ entry ∈ sortEntries entries, (w.refuses entry.1 = none ∧
        ∀ item ∈ (entry.2.items path entry.1).tail, w.Lists item) ∧
          ∀ item ∈ entry.2.items path entry.1, w.Opens item := by
    simp only [itemsBelow, List.forall_mem_flatMap, forall_and, ← lists_items]
  change (Except.bind _ _ = _) ↔ _
  rw [bind_eq_ok]
  constructor
  · rintro ⟨names, hnames, hwalk⟩
    obtain ⟨hfault, hrefuses, rfl⟩ := w.listNames_eq_ok.mp hnames
    obtain ⟨hall, hdone⟩ := hvisit.mp hwalk
    refine ⟨hfault, hitems.mpr ?_, hdone⟩
    intro entry hentry
    obtain ⟨hopens, htail⟩ := hall entry hentry
    exact ⟨⟨hlists.mp hrefuses entry hentry, htail⟩, hopens⟩
  · rintro ⟨hfault, hall, hdone⟩
    have hall' := hitems.mp hall
    refine ⟨_, w.listNames_eq_ok.mpr ⟨hfault, hlists.mpr ?_, rfl⟩, hvisit.mpr ⟨?_, hdone⟩⟩
    · intro entry hentry
      exact (hall' entry hentry).1.1
    · intro entry hentry
      obtain ⟨⟨_, htail⟩, hopens⟩ := hall' entry hentry
      exact ⟨hopens, htail⟩

/-- What a visit of an entry and everything below it does. -/
theorem visitNode_eq_ok {node : Node} (hwf : node.WellFormed) (parent : Path) (name : Name)
    (s s' : σ) :
    w.visitNode node parent name s = .ok s' ↔
      (∀ item ∈ node.items parent name, w.Opens item) ∧
        (∀ item ∈ (node.items parent name).tail, w.Lists item) ∧
          w.visitItems (node.items parent name) s = .ok s' := by
  induction node using Node.induction generalizing parent name s s' with
  | regular content => simp [visitNode, Node.items, visitItems, Opens]
  | symlink target => simp [visitNode, Node.items, visitItems, Opens]
  | special => simp [visitNode, Node.items, visitItems, Opens]
  | directory entries ih =>
    cases hwf with
    | directory hnodup _ hnodes =>
      have hwalk := @walk_eq_ok_of _ _ w _ (join parent name) hnodup
        fun entry hentry s s' =>
          ih entry hentry (hnodes entry hentry) (join parent name) entry.1 s s'
      have hnode : w.visitNode (.directory entries) parent name s =
          (w.visit parent name .directory s).bind (w.walk entries (join parent name)) := by
        rw [visitNode]
        rfl
      rw [hnode, Node.items_directory, visitItems_cons, bind_eq_ok, bind_eq_ok,
        List.forall_mem_cons, List.tail_cons]
      simp only [hwalk, forall_and, Opens, Item.path, forall_const]
      constructor
      · rintro ⟨first, hfirst, hfault, ⟨hlists, hopens⟩, hdone⟩
        exact ⟨⟨hfault, hopens⟩, hlists, first, hfirst, hdone⟩
      · rintro ⟨⟨hfault, hopens⟩, hlists, first, hfirst, hdone⟩
        exact ⟨first, hfirst, hfault, ⟨hlists, hopens⟩, hdone⟩

/-- A walk over a tree ends well when its listings do and the visits of the items of the
tree, in their order, do. -/
theorem walk_eq_ok (tree : Tree) (s s' : σ) :
    w.walk tree.entries [] s = .ok s' ↔
      w.listFault [] = none ∧ (∀ item ∈ tree.items, w.Lists item ∧ w.Opens item) ∧
        w.visitItems tree.items s = .ok s' := by
  cases tree.wellFormed with
  | directory hnodup _ hnodes =>
    exact walk_eq_ok_of hnodup
      (fun entry hentry s s' => visitNode_eq_ok (hnodes entry hentry) [] entry.1 s s') s s'

end Walker

end Moonfort.DirectoryTree
