import M2M.Lib.Chains

/-! Lists that are searched and changed through the links of their nodes, and lists whose nodes
point back at the link that points to them. -/

universe u v

namespace M2M.Lib

variable {α : Type u}

/-- A place that holds a pointer: the start of the list, or the link of a node. -/
inductive Link (α : Type u)
  | first
  | next (a : α)
  deriving DecidableEq

/-- The link that is met behind the nodes of a list. -/
def Link.behind : Link α → List α → Link α
  | link, [] => link
  | _, a :: l => (Link.next a).behind l

theorem Link.exists_behind (a : α) (l : List α) :
    ∃ b ∈ a :: l, (Link.next a).behind l = .next b := by
  induction l generalizing a with
  | nil => exact ⟨a, List.mem_cons_self, rfl⟩
  | cons c l ih =>
    obtain ⟨b, hb, hbehind⟩ := ih c
    exact ⟨b, List.mem_cons_of_mem a hb, hbehind⟩

theorem Link.mem_of_behind {l : List α} {b : α} (h : Link.first.behind l = .next b) : b ∈ l := by
  cases l with
  | nil => cases h
  | cons a l =>
    obtain ⟨d, hd, hbehind⟩ := Link.exists_behind a l
    rw [Link.behind, hbehind] at h
    injection h with h
    exact h ▸ hd

/-- From `link` on, every node points back at the link to it. -/
def Backs (pref : α → Link α) : Link α → List α → Prop
  | _, [] => True
  | link, a :: l => pref a = link ∧ Backs pref (.next a) l

theorem backs_append {pref : α → Link α} {link : Link α} {front l : List α} :
    Backs pref link (front ++ l) ↔ Backs pref link front ∧ Backs pref (link.behind front) l := by
  induction front generalizing link with
  | nil => simp [Backs, Link.behind]
  | cons a front ih =>
    simp only [List.cons_append, Backs, Link.behind, ih, and_assoc]

/-- The pointers of a list. -/
structure Links (α : Type u) where
  start : Option α
  next : α → Option α

def Links.read (s : Links α) : Link α → Option α
  | .first => s.start
  | .next a => s.next a

section Search

variable {s : Links α} {link : Link α} {front l : List α} {stop : α → Bool} {fuel : Nat}

/-- The first link behind `link` that is null or points to a node where the search stops. -/
def Links.find (s : Links α) (stop : α → Bool) : Nat → Link α → Option (Link α)
  | 0, _ => none
  | fuel + 1, link =>
    match s.read link with
    | none => some link
    | some a => if stop a then some link else s.find stop fuel (.next a)

theorem Chain.read_behind (h : Chain s.next (s.read link) (front ++ l)) :
    s.read (link.behind front) = l.head? := by
  induction front generalizing link with
  | nil => exact h.head?_eq
  | cons b front ih => exact ih h.2

theorem Links.find_of_chain (h : Chain s.next (s.read link) (front ++ l))
    (hfront : ∀ b ∈ front, stop b = false) (hl : ∀ b ∈ l.head?, stop b = true)
    (hfuel : front.length < fuel) : s.find stop fuel link = some (link.behind front) := by
  induction front generalizing link fuel with
  | nil =>
    cases fuel with
    | zero => exact absurd hfuel (Nat.not_lt_zero _)
    | succ fuel =>
      have hread : s.read link = l.head? := h.head?_eq
      rw [find, hread]
      cases l with
      | nil => rfl
      | cons a l => exact if_pos (hl a rfl)
  | cons b front ih =>
    cases fuel with
    | zero => exact absurd hfuel (Nat.not_lt_zero _)
    | succ fuel =>
      rw [List.forall_mem_cons] at hfront
      rw [find, h.1]
      simp only [hfront.1, Bool.false_eq_true, if_false]
      exact ih h.2 hfront.2 (Nat.lt_of_succ_lt_succ hfuel)

end Search

variable [DecidableEq α]

def Links.write (s : Links α) (link : Link α) (x : Option α) : Links α :=
  match link with
  | .first => { s with start := x }
  | .next a => { s with next := Function.update s.next a x }

/-- A node that is there points back at `link`. -/
def repoint (pref : α → Link α) (node : Option α) (link : Link α) : α → Link α :=
  match node with
  | none => pref
  | some a => Function.update pref a link

section Links

variable {s : Links α} {link : Link α} {front l : List α} {a : α} {x : Option α}

@[simp] theorem read_write (s : Links α) (link : Link α) (x : Option α) :
    (s.write link x).read link = x := by
  cases link with
  | first => rfl
  | next a => exact Function.update_self _ _ _

theorem read_write_of_ne {link' : Link α} (h : link' ≠ link) :
    (s.write link x).read link' = s.read link' := by
  cases link with
  | first =>
    cases link' with
    | first => exact (h rfl).elim
    | next b => rfl
  | next a =>
    cases link' with
    | first => rfl
    | next b =>
      have hne : b ≠ a := fun heq => h (heq ▸ rfl)
      exact Function.update_of_ne hne _ _

theorem Chain.write {p : Option α} (h : Chain s.next p l) (hlink : ∀ b ∈ l, link ≠ .next b) :
    Chain (s.write link x).next p l := by
  cases link with
  | first => exact h
  | next a => exact h.touch (fun ha => hlink a ha rfl) x

theorem Chain.unlink (s : Links α) (link : Link α)
    (h : Chain s.next (s.read link) (front ++ a :: l))
    (hnodup : (front ++ a :: l).Nodup) (hlink : ∀ b ∈ front ++ a :: l, link ≠ .next b) :
    Chain (s.write (link.behind front) (s.next a)).next
      ((s.write (link.behind front) (s.next a)).read link) (front ++ l) := by
  induction front generalizing link with
  | nil =>
    rw [Link.behind, read_write]
    exact h.2.write fun b hb => hlink b (List.mem_cons_of_mem a hb)
  | cons b front ih =>
    rw [List.cons_append, List.nodup_cons] at hnodup
    have hother : ∀ c ∈ front ++ a :: l, Link.next b ≠ .next c := by
      intro c hc heq
      injection heq with heq
      exact hnodup.1 (heq ▸ hc)
    have hne : link ≠ (Link.next b).behind front := by
      obtain ⟨c, hc, hbehind⟩ := Link.exists_behind b front
      rw [hbehind]
      exact hlink c (List.mem_append_left (a :: l) hc)
    refine ⟨?_, ih (.next b) h.2 hnodup.2 hother⟩
    rw [Link.behind, read_write_of_ne hne]
    exact h.1

theorem Backs.touch {pref : α → Link α} (h : Backs pref link l) (ha : a ∉ l) (link' : Link α) :
    Backs (Function.update pref a link') link l := by
  induction l generalizing link with
  | nil => trivial
  | cons b l ih =>
    rw [List.mem_cons, not_or] at ha
    refine ⟨?_, ih h.2 ha.2⟩
    rw [Function.update_of_ne (Ne.symm ha.1)]
    exact h.1

theorem Backs.repoint {pref : α → Link α} {link' : Link α} (h : Backs pref link' l)
    (hnodup : l.Nodup) (link : Link α) : Backs (repoint pref l.head? link) link l := by
  cases l with
  | nil => trivial
  | cons a l =>
    refine ⟨Function.update_self _ _ _, ?_⟩
    exact h.2.touch (List.nodup_cons.mp hnodup).1 link

theorem Backs.repoint_of_notMem {pref : α → Link α} (h : Backs pref link l) {node : Option α}
    (hnode : ∀ b ∈ node, b ∉ l) (link' : Link α) :
    Backs (M2M.Lib.repoint pref node link') link l := by
  cases node with
  | none => exact h
  | some a => exact h.touch (hnode a rfl) link'

end Links

section Insert

variable {s : Links α} {link : Link α} {front l : List α} {a : α}

/-- The node that the link points to is taken out; a null link has none. -/
def Links.unlink (s : Links α) (link : Link α) : Links α :=
  match s.read link with
  | none => s
  | some a => s.write link (s.next a)

/-- A node is put behind the link. -/
def Links.insert (s : Links α) (link : Link α) (a : α) : Links α :=
  { s with next := Function.update s.next a (s.read link) }.write link (some a)

theorem Chain.insert (h : Chain s.next (s.read link) (front ++ l))
    (hnodup : (front ++ l).Nodup) (ha : a ∉ front ++ l)
    (hlink : ∀ b ∈ a :: (front ++ l), link ≠ .next b) :
    Chain (s.insert (link.behind front) a).next ((s.insert (link.behind front) a).read link)
      (front ++ a :: l) := by
  induction front generalizing link with
  | nil =>
    rw [Link.behind, Links.insert, read_write]
    have hcons : Chain (Function.update s.next a (s.read link)) (some a) (a :: l) := h.cons ha
    exact Chain.write (s := { s with next := _ }) hcons hlink
  | cons b front ih =>
    have hba : b ≠ a := fun heq => ha (heq ▸ List.mem_cons_self)
    rw [List.cons_append, List.nodup_cons] at hnodup
    have hother : ∀ c ∈ a :: (front ++ l), Link.next b ≠ .next c := by
      intro c hc heq
      injection heq with heq
      rcases List.mem_cons.mp hc with hca | hc
      · exact hba (heq.trans hca)
      · exact hnodup.1 (heq ▸ hc)
    have hne : link ≠ (Link.next b).behind front := by
      obtain ⟨c, hc, hbehind⟩ := Link.exists_behind b front
      rw [hbehind]
      refine hlink c (List.mem_cons_of_mem a ?_)
      exact List.mem_append_left l hc
    have hna : link ≠ .next a := hlink a List.mem_cons_self
    refine ⟨?_, ih h.2 hnodup.2 (fun hmem => ha (List.mem_cons_of_mem b hmem)) hother⟩
    rw [Link.behind, Links.insert, read_write_of_ne hne]
    cases link with
    | first => exact h.1
    | next c =>
      have hca : c ≠ a := fun heq => hna (heq ▸ rfl)
      exact (Function.update_of_ne hca _ _).trans h.1

end Insert

section Lists

variable {ι : Type v} {next : α → Option α} {first : ι → Option α}
  {lists : ι → List α} {i : ι} {front l : List α} {a : α}

theorem Chains.chain_write (h : Chains next first lists) {s : Links α} {x : Option α} {j : ι}
    (hj : j ≠ i) (hchain : Chain s.next (first j) (lists j))
    (hfront : ∀ b ∈ front, b ∈ lists i) :
    Chain (s.write (Link.first.behind front) x).next (first j) (lists j) := by
  have hlink : ∀ b ∈ lists j, Link.first.behind front ≠ .next b := by
    intro b hb hbehind
    exact hj (h.apart hb (hfront b (Link.mem_of_behind hbehind)))
  cases hbehind : Link.first.behind front with
  | first => exact hchain
  | next c => exact hchain.touch (fun hc => hlink c hc hbehind) x

variable [DecidableEq ι]

theorem Chains.unlink (h : Chains next first lists) (hi : lists i = front ++ a :: l) :
    Chains (Links.unlink ⟨first i, next⟩ (Link.first.behind front)).next
      (Function.update first i (Links.unlink ⟨first i, next⟩ (Link.first.behind front)).start)
      (Function.update lists i (front ++ l)) := by
  have hchain : Chain next (Links.read ⟨first i, next⟩ .first) (front ++ a :: l) := hi ▸ h.chain i
  have hnodup := h.nodup i
  rw [hi] at hnodup
  have hsub : (front ++ l).Sublist (front ++ a :: l) :=
    (List.sublist_cons_self a l).append_left front
  have hread : Links.read ⟨first i, next⟩ (Link.first.behind front) = some a :=
    hchain.read_behind (s := ⟨first i, next⟩)
  rw [Links.unlink, hread]
  refine h.replace ?_ (hnodup.sublist hsub) (fun j hj => ?_) fun b hb => .inl ?_
  · exact Chain.unlink ⟨first i, next⟩ .first hchain hnodup fun b _ hb => by cases hb
  · exact h.chain_write hj (h.chain j) fun b hb => hi ▸ List.mem_append_left _ hb
  · rw [hi]
    exact hsub.subset hb

theorem Chains.insert (h : Chains next first lists) (hi : lists i = front ++ l)
    (ha : ∀ j, a ∉ lists j) :
    Chains (Links.insert ⟨first i, next⟩ (Link.first.behind front) a).next
      (Function.update first i (Links.insert ⟨first i, next⟩ (Link.first.behind front) a).start)
      (Function.update lists i (front ++ a :: l)) := by
  have hchain : Chain next (Links.read ⟨first i, next⟩ .first) (front ++ l) := hi ▸ h.chain i
  have hnodup := h.nodup i
  have hnot := ha i
  rw [hi] at hnodup hnot
  refine h.replace ?_ ?_ (fun j hj => ?_) fun b hb => ?_
  · refine Chain.insert (s := ⟨first i, next⟩) hchain hnodup hnot fun b _ hb => ?_
    cases hb
  · exact List.nodup_middle.mpr (List.nodup_cons.mpr ⟨hnot, hnodup⟩)
  · exact h.chain_write hj ((h.chain j).touch (ha j) _) fun b hb => hi ▸ List.mem_append_left _ hb
  · rcases List.mem_cons.mp (List.perm_middle.mem_iff.mp hb) with rfl | hmem
    · exact .inr ha
    · exact .inl (hi ▸ hmem)

end Lists

/-- Lists with a start for each index. -/
structure Family (ι : Type v) (α : Type u) where
  first : ι → Option α
  next : α → Option α

namespace Family

variable {ι : Type v} [DecidableEq ι]

def links (f : Family ι α) (i : ι) : Links α := ⟨f.first i, f.next⟩

def set (f : Family ι α) (i : ι) (s : Links α) : Family ι α :=
  ⟨Function.update f.first i s.start, s.next⟩

def push (f : Family ι α) (i : ι) (a : α) : Family ι α :=
  f.set i ((f.links i).insert .first a)

/-- Takes out the first node that is looked for, if there is one. -/
def remove (f : Family ι α) (i : ι) (is : α → Bool) (fuel : Nat) : Option (Family ι α) :=
  ((f.links i).find is fuel .first).bind fun link =>
    ((f.links i).read link).map fun _ => f.set i ((f.links i).unlink link)

variable {f : Family ι α} {lists : ι → List α} {i : ι} {front l : List α} {a : α} {fuel : Nat}
  {is : α → Bool}

theorem update_eq_filter {next : α → Option α} {first : ι → Option α}
    (h : Chains next first lists) (hi : lists i = front ++ a :: l) :
    Function.update lists i (front ++ l) = fun j => (lists j).filter fun b => decide (b ≠ a) := by
  have hnodup := h.nodup i
  rw [hi] at hnodup
  have hnot := (List.nodup_cons.mp (List.nodup_middle.mp hnodup)).1
  funext j
  by_cases hj : j = i
  · rw [hj, Function.update_self, hi, List.filter_append, List.filter_cons_of_neg (by simp),
      ← List.filter_append]
    refine (List.filter_eq_self.mpr fun b hb => decide_eq_true ?_).symm
    rintro rfl
    exact hnot hb
  · rw [Function.update_of_ne hj]
    refine (List.filter_eq_self.mpr fun b hb => decide_eq_true ?_).symm
    rintro rfl
    exact hj (h.apart hb (hi ▸ List.mem_append_right front List.mem_cons_self))

theorem chains_remove (h : Chains f.next f.first lists) (hmem : a ∈ lists i) (ha : is a = true)
    (hother : ∀ b ∈ lists i, is b = true → b = a) (hfuel : (lists i).length < fuel) :
    ∃ g, f.remove i is fuel = some g ∧
      Chains g.next g.first (fun j => (lists j).filter fun b => decide (b ≠ a)) := by
  obtain ⟨front, l, hi⟩ := List.append_of_mem hmem
  have hchain : Chain f.next ((f.links i).read .first) (front ++ a :: l) := hi ▸ h.chain i
  have hnodup := h.nodup i
  rw [hi] at hnodup hfuel
  rw [List.length_append] at hfuel
  have hfront : ∀ b ∈ front, is b = false := by
    intro b hb
    rw [Bool.eq_false_iff]
    intro hset
    have heq := hother b (hi ▸ List.mem_append_left _ hb) hset
    have hnot := (List.nodup_cons.mp (List.nodup_middle.mp hnodup)).1
    exact hnot (List.mem_append_left l (heq ▸ hb))
  have hfind : (f.links i).find is fuel .first = some (Link.first.behind front) := by
    refine Links.find_of_chain (s := f.links i) hchain hfront (fun b hb => ?_) (by omega)
    exact Option.some.inj hb ▸ ha
  have hread : (f.links i).read (Link.first.behind front) = some a :=
    hchain.read_behind (s := f.links i)
  refine ⟨f.set i ((f.links i).unlink (Link.first.behind front)), ?_, ?_⟩
  · rw [remove, hfind, Option.bind_some, hread, Option.map_some]
  · rw [← update_eq_filter h hi]
    exact h.unlink hi

end Family

end M2M.Lib
