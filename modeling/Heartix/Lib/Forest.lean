import Mathlib.Data.List.Basic

/-!
Ordered forests and their entries. An entry has a number and the number of its
parent; the entries of a forest are numbered in preorder. Adding them one after
another, each under its parent, gives the forest back.
-/

namespace Heartix

/-- A forest: leaves, and nodes with children, next to each other. -/
inductive Forest (α β : Type*) where
  | nil
  | leaf (a : α) (rest : Forest α β)
  | node (b : β) (children rest : Forest α β)

namespace Forest

structure Entry (α β : Type*) where
  id : ℕ
  parent : ℕ
  value : α ⊕ β

variable {α β : Type*}

def count : Forest α β → ℕ
  | nil => 0
  | leaf _ rest => 1 + rest.count
  | node _ children rest => 1 + children.count + rest.count

/-- The entries in preorder, numbered from `next` on. -/
def entries : Forest α β → ℕ → ℕ → List (Entry α β)
  | nil, _, _ => []
  | leaf a rest, next, parent => ⟨next, parent, .inl a⟩ :: rest.entries (next + 1) parent
  | node b children rest, next, parent =>
      ⟨next, parent, .inr b⟩ :: (children.entries (next + 1) next ++
        rest.entries (next + 1 + children.count) parent)

def append : Forest α β → Forest α β → Forest α β
  | nil, g => g
  | leaf a rest, g => leaf a (rest.append g)
  | node b children rest, g => node b children (rest.append g)

/-- A forest whose leaves and nodes carry their numbers. -/
abbrev Numbered (α β : Type*) := Forest (ℕ × α) (ℕ × β)

/-- The numbers that `entries` gives. -/
def number : Forest α β → ℕ → Numbered α β
  | nil, _ => nil
  | leaf a rest, next => leaf (next, a) (rest.number (next + 1))
  | node b children rest, next =>
      node (next, b) (children.number (next + 1)) (rest.number (next + 1 + children.count))

def strip : Numbered α β → Forest α β
  | nil => nil
  | leaf a rest => leaf a.2 rest.strip
  | node b children rest => node b.2 children.strip rest.strip

/-- `g` becomes the end of the children of the node with the given number. -/
def graft (parent : ℕ) (g : Numbered α β) : Numbered α β → Numbered α β
  | nil => nil
  | leaf a rest => leaf a (graft parent g rest)
  | node b children rest =>
      if b.1 = parent then node b (children.append g) rest
      else node b (graft parent g children) (graft parent g rest)

def Entry.single (e : Entry α β) : Numbered α β :=
  match e.value with
  | .inl a => leaf (e.id, a) nil
  | .inr b => node (e.id, b) nil nil

def add (f : Numbered α β) (e : Entry α β) : Numbered α β := graft e.parent e.single f

/-- The forest below a root with number 0, from the entries below it. -/
def rebuild (root : β) (entries : List (Entry α β)) : Forest α β :=
  (entries.foldl add (node (0, root) nil nil)).strip

/-- All nodes have numbers below `n`. -/
def Below (n : ℕ) : Numbered α β → Prop
  | nil => True
  | leaf _ rest => rest.Below n
  | node b children rest => b.1 < n ∧ children.Below n ∧ rest.Below n

theorem append_nil (f : Forest α β) : f.append nil = f := by
  induction f with
  | nil => rfl
  | leaf a rest ih =>
    unfold append
    rw [ih]
  | node b children rest _ ih =>
    unfold append
    rw [ih]

theorem append_assoc (f g h : Forest α β) : (f.append g).append h = f.append (g.append h) := by
  induction f with
  | nil => rfl
  | leaf a rest ih => exact congrArg (leaf a) ih
  | node b children rest _ ih => exact congrArg (node b children) ih

theorem strip_number (f : Forest α β) (next : ℕ) : (f.number next).strip = f := by
  induction f generalizing next with
  | nil => rfl
  | leaf a rest ih =>
    unfold number strip
    rw [ih]
  | node b children rest ihc ihr =>
    unfold number strip
    rw [ihc, ihr]

/-- The numbers are consecutive. -/
theorem entries_ids (f : Forest α β) (next parent : ℕ) :
    (f.entries next parent).map Entry.id = List.range' next f.count := by
  induction f generalizing next parent with
  | nil => rfl
  | leaf a rest ih =>
    rw [entries, count, List.map_cons, ih, Nat.add_comm 1, List.range'_succ]
  | node b children rest ihc ihr =>
    rw [entries, count, List.map_cons, List.map_append, ihc, ihr, List.range'_append_1,
      Nat.add_assoc 1,
      Nat.add_comm 1, List.range'_succ]

/-- The parent of an entry is the given one or a node that comes earlier. -/
theorem entries_parent (f : Forest α β) (next parent : ℕ) {before after : List (Entry α β)}
    {e : Entry α β} (h : f.entries next parent = before ++ e :: after) :
    e.parent = parent ∨ ∃ d ∈ before, d.id = e.parent ∧ d.value.isRight := by
  induction f generalizing next parent before after with
  | nil => simp [entries] at h
  | leaf a rest ih =>
    unfold entries at h
    cases before with
    | nil =>
      obtain ⟨rfl, _⟩ := List.cons.inj h
      exact Or.inl rfl
    | cons d before =>
      obtain ⟨_, htail⟩ := List.cons.inj h
      rcases ih _ _ htail with hparent | ⟨d', hd', hid, hnode⟩
      · exact Or.inl hparent
      · exact Or.inr ⟨d', List.mem_cons_of_mem d hd', hid, hnode⟩
  | node b children rest ihc ihr =>
    unfold entries at h
    cases before with
    | nil =>
      obtain ⟨rfl, _⟩ := List.cons.inj h
      exact Or.inl rfl
    | cons d before =>
      obtain ⟨rfl, htail⟩ := List.cons.inj h
      rcases List.append_eq_append_iff.mp htail with ⟨l, hbefore, hrest⟩ | ⟨l, hchildren, hl⟩
      · rcases ihr _ _ hrest with hparent | ⟨d', hd', hid, hnode⟩
        · exact Or.inl hparent
        · refine Or.inr ⟨d', List.mem_cons_of_mem _ ?_, hid, hnode⟩
          rw [hbefore]
          exact List.mem_append_right _ hd'
      · cases l with
        | nil =>
          have hrest : rest.entries (next + 1 + children.count) parent = [] ++ e :: after := by
            simpa using hl.symm
          rcases ihr _ _ hrest with hparent | ⟨d', hd', _⟩
          · exact Or.inl hparent
          · cases hd'
        | cons e' l =>
          obtain ⟨rfl, _⟩ := List.cons.inj hl
          rcases ihc _ _ hchildren with hparent | ⟨d', hd', hid, hnode⟩
          · exact Or.inr ⟨_, List.mem_cons_self, hparent.symm, rfl⟩
          · exact Or.inr ⟨d', List.mem_cons_of_mem _ hd', hid, hnode⟩

variable {f g h : Numbered α β} {m n parent : ℕ}

theorem Below.mono (hf : f.Below m) (hmn : m ≤ n) : f.Below n := by
  induction f with
  | nil => trivial
  | leaf a rest ih => exact ih hf
  | node b children rest ihc ihr =>
    exact ⟨Nat.lt_of_lt_of_le hf.1 hmn, ihc hf.2.1, ihr hf.2.2⟩

theorem Below.append (hf : f.Below n) (hg : g.Below n) : (f.append g).Below n := by
  induction f with
  | nil => exact hg
  | leaf a rest ih => exact ih hf
  | node b children rest _ ihr => exact ⟨hf.1, hf.2.1, ihr hf.2.2⟩

theorem graft_node_of_eq {b : ℕ × β} (hb : b.1 = parent) (children rest : Numbered α β) :
    graft parent g (node b children rest) = node b (children.append g) rest :=
  if_pos hb

theorem graft_node_of_ne {b : ℕ × β} (hb : b.1 ≠ parent) (children rest : Numbered α β) :
    graft parent g (node b children rest) =
      node b (graft parent g children) (graft parent g rest) :=
  if_neg hb

theorem Below.graft (hf : f.Below n) (hg : g.Below n) : (graft parent g f).Below n := by
  induction f with
  | nil => trivial
  | leaf a rest ih => exact ih hf
  | node b children rest ihc ihr =>
    by_cases hb : b.1 = parent
    · rw [graft_node_of_eq hb]
      exact ⟨hf.1, hf.2.1.append hg, hf.2.2⟩
    · rw [graft_node_of_ne hb]
      exact ⟨hf.1, ihc hf.2.1, ihr hf.2.2⟩

theorem below_number (f : Forest α β) (next : ℕ) : (f.number next).Below (next + f.count) := by
  induction f generalizing next with
  | nil => trivial
  | leaf a rest ih =>
    have hrest := ih (next + 1)
    rw [Nat.add_assoc] at hrest
    exact hrest
  | node b children rest ihc ihr =>
    rw [number, count]
    refine ⟨?_, (ihc (next + 1)).mono ?_, (ihr (next + 1 + children.count)).mono ?_⟩
    · change next < _
      omega
    · omega
    · omega

theorem graft_nil (f : Numbered α β) : graft parent nil f = f := by
  induction f with
  | nil => rfl
  | leaf a rest ih => exact congrArg (leaf a) ih
  | node b children rest ihc ihr =>
    unfold graft
    rw [append_nil, ihc, ihr, ite_self]

theorem graft_of_below (hf : f.Below n) (hn : n ≤ parent) : graft parent g f = f := by
  induction f with
  | nil => rfl
  | leaf a rest ih => exact congrArg (leaf a) (ih hf)
  | node b children rest ihc ihr =>
    have hne : b.1 ≠ parent := by
      have hlt := hf.1
      omega
    rw [graft_node_of_ne hne, ihc hf.2.1, ihr hf.2.2]

theorem graft_append (f : Numbered α β) :
    graft parent h (graft parent g f) = graft parent (g.append h) f := by
  induction f with
  | nil => rfl
  | leaf a rest ih => exact congrArg (leaf a) ih
  | node b children rest ihc ihr =>
    by_cases hb : b.1 = parent
    · rw [graft_node_of_eq hb, graft_node_of_eq hb, graft_node_of_eq hb, append_assoc]
    · rw [graft_node_of_ne hb, graft_node_of_ne hb, graft_node_of_ne hb, ihc, ihr]

/-- Grafting at the end of what was grafted. -/
theorem graft_append_node {b : β} (hf : f.Below n) :
    graft n g (f.append (node (n, b) nil nil)) = f.append (node (n, b) g nil) := by
  induction f with
  | nil =>
    exact graft_node_of_eq rfl nil nil
  | leaf a rest ih => exact congrArg (leaf a) (ih hf)
  | node c children rest _ ihr =>
    have hne : c.1 ≠ n := by
      have hlt := hf.1
      omega
    rw [append, append, graft_node_of_ne hne, graft_of_below hf.2.1 (Nat.le_refl n), ihr hf.2.2]

theorem graft_graft_node {b : β} (hf : f.Below n) :
    graft n g (graft parent (node (n, b) nil nil) f) = graft parent (node (n, b) g nil) f := by
  induction f with
  | nil => rfl
  | leaf a rest ih => exact congrArg (leaf a) (ih hf)
  | node c children rest ihc ihr =>
    have hne : c.1 ≠ n := by
      have hlt := hf.1
      omega
    by_cases hc : c.1 = parent
    · rw [graft_node_of_eq hc, graft_node_of_eq hc, graft_node_of_ne hne,
        graft_append_node hf.2.1, graft_of_below hf.2.2 (Nat.le_refl n)]
    · rw [graft_node_of_ne hc, graft_node_of_ne hc, graft_node_of_ne hne, ihc hf.2.1,
        ihr hf.2.2]

/-- Adding the entries of a forest grafts it below the parent. -/
theorem foldl_add_entries (f : Forest α β) {next : ℕ} (hg : g.Below next) :
    (f.entries next parent).foldl add g = graft parent (f.number next) g := by
  induction f generalizing next parent g with
  | nil => exact (graft_nil g).symm
  | leaf a rest ih =>
    have hadd : add g ⟨next, parent, .inl a⟩ = graft parent (leaf (next, a) nil) g := rfl
    have hbelow : (graft parent (leaf (next, a) nil) g).Below (next + 1) :=
      (hg.mono (Nat.le_succ next)).graft trivial
    unfold entries
    rw [List.foldl_cons, hadd, ih hbelow, graft_append]
    rfl
  | node b children rest ihc ihr =>
    have hadd : add g ⟨next, parent, .inr b⟩ = graft parent (node (next, b) nil nil) g := rfl
    have hbelow : (graft parent (node (next, b) nil nil) g).Below (next + 1) :=
      (hg.mono (Nat.le_succ next)).graft ⟨Nat.lt_succ_self next, trivial, trivial⟩
    have hchildren : (graft parent (node (next, b) (children.number (next + 1)) nil) g).Below
        (next + 1 + children.count) := by
      apply (hg.mono (by omega)).graft
      exact ⟨by change next < _; omega, below_number children (next + 1), trivial⟩
    unfold entries
    rw [List.foldl_cons, List.foldl_append, hadd, ihc hbelow,
      graft_graft_node hg, ihr hchildren, graft_append]
    rfl

theorem rebuild_entries (root : β) (f : Forest α β) :
    rebuild root (f.entries 1 0) = node root f nil := by
  have hroot : Below 1 (node (0, root) nil nil : Numbered α β) :=
    ⟨Nat.zero_lt_one, trivial, trivial⟩
  unfold rebuild
  rw [foldl_add_entries f hroot, graft_node_of_eq (b := (0, root)) rfl]
  change node root (strip (f.number 1)) nil = _
  rw [strip_number]

end Forest

end Heartix
