import M2M.Qemud.ClientLists

/-! The lists of `ClientLists` after any order of insertions and removals. -/

open M2M.Lib

namespace M2M.Qemud.ClientLists

variable {α κ : Type} {w : World α κ} {l : List α} {c : α} {rounds : Nat}

theorem findChannel_eq {channel : Int} {p : Option α} (h : Chain w.next p l)
    (hrounds : l.length < rounds) :
    w.findChannel channel rounds p = l.find? fun c => w.channel c = channel := by
  induction l generalizing p rounds with
  | nil =>
    cases rounds with
    | zero => rfl
    | succ rounds =>
      rw [show p = none from h]
      rfl
  | cons b l ih =>
    cases rounds with
    | zero => cases hrounds
    | succ rounds =>
      rw [h.1, World.findChannel, List.find?_cons]
      by_cases hb : w.channel b = channel
      · rw [if_pos hb, decide_eq_true hb]
      · rw [if_neg hb, decide_eq_false hb]
        exact ih h.2 (Nat.lt_of_succ_lt_succ hrounds)

theorem clients_update [DecidableEq κ] (w : World α κ) (s : κ) (sv : Service α) :
    (fun t => (Function.update w.serv s sv t).clients) =
      Function.update (fun t => (w.serv t).clients) s sv.clients := by
  funext t
  by_cases ht : t = s
  · subst ht
    simp
  · simp [ht]

section Links

variable [DecidableEq α] {links : Links α}

theorem findLink_eq (front back : List α) {link : Link α}
    (h : Chain links.next (links.read link) (front ++ c :: back))
    (hc : c ∉ front) (hrounds : front.length < rounds) :
    World.findLink links c rounds link = some (link.behind front) := by
  induction front generalizing link rounds with
  | nil =>
    cases rounds with
    | zero => cases hrounds
    | succ rounds =>
      rw [World.findLink, h.1]
      exact if_pos rfl
  | cons b front ih =>
    cases rounds with
    | zero => cases hrounds
    | succ rounds =>
      rw [List.mem_cons, not_or] at hc
      rw [World.findLink, h.1]
      dsimp only
      rw [if_neg (Ne.symm hc.1)]
      exact ih h.2 hc.2 (Nat.lt_of_succ_lt_succ hrounds)

theorem erase_middle {front back : List α} (h : c ∉ front) :
    (front ++ c :: back).erase c = front ++ back := by
  rw [List.erase_append_right _ h, List.erase_cons_head]

theorem exists_split {l : List α} (hc : c ∈ l) (hnodup : l.Nodup) :
    ∃ front back, l = front ++ c :: back ∧ c ∉ front ∧ c ∉ back ∧ l.erase c = front ++ back := by
  obtain ⟨front, back, rfl⟩ := List.append_of_mem hc
  have hmiddle := List.nodup_middle.mp hnodup
  rw [List.nodup_cons, List.mem_append, not_or] at hmiddle
  exact ⟨front, back, rfl, hmiddle.1.1, hmiddle.1.2, erase_middle hmiddle.1.1⟩

theorem clientRemove_spec (hchain : Chain w.next w.clients l) (hback : Backs w.pref .first l)
    (hnodup : l.Nodup) (hc : c ∈ l) :
    Chain (w.clientRemove c).next (w.clientRemove c).clients (l.erase c) ∧
      Backs (w.clientRemove c).pref .first (l.erase c) := by
  obtain ⟨front, back, rfl, hfront, hbackc, herase⟩ := exists_split hc hnodup
  obtain ⟨hbefore, hpref, hafter⟩ := backs_append.mp hback
  have hrest : (front ++ back).Nodup := by
    rw [← herase]
    exact hnodup.erase c
  have hnotMem : c ∉ front ++ back := by simp [hfront, hbackc]
  rw [herase]
  -- what `c` points to is not changed by the write to the link behind `front`
  have hne : Link.next c ≠ w.pref c := by
    rw [hpref]
    exact fun heq => hfront (Link.mem_of_behind heq.symm)
  have hnext : ((Links.mk w.clients w.next).write (w.pref c) (w.next c)).next c = w.next c :=
    read_write_of_ne (s := ⟨w.clients, w.next⟩) hne
  have hhead : w.next c = back.head? := hchain.after.head?_eq
  have hdisjoint : ∀ d ∈ back.head?, d ∉ front := by
    intro d hd hmem
    exact (List.nodup_append.mp hrest).2.2 d hmem d (List.mem_of_mem_head? hd) rfl
  constructor
  · have hunlink := Chain.unlink ⟨w.clients, w.next⟩ .first hchain hnodup
      (fun _ _ => nofun)
    rw [← hpref] at hunlink
    exact hunlink.touch hnotMem none
  · have hrepointed : Backs (repoint w.pref back.head? (w.pref c)) .first (front ++ back) := by
      rw [backs_append]
      refine ⟨hbefore.repoint_of_notMem hdisjoint _, ?_⟩
      rw [← hpref]
      exact hafter.repoint (List.nodup_append.mp hrest).2.1 _
    rw [← hhead, ← hnext] at hrepointed
    exact hrepointed.touch hnotMem (.next c)

end Links

variable [DecidableEq α] [DecidableEq κ] {lists : κ → List α}

/-- A `serv_connect` of `s` that may still call `qemud_client_new`. -/
def Callback.waits (s : κ) : Callback α κ → Bool
  | .servConnect s' _ made => s' = s && !made
  | .clieClose _ => false

/-- The list `l` of all clients, without those being closed, and the `lists` of the services. -/
structure Sound (w : World α κ) (l : List α) (lists : κ → List α) : Prop where
  chain : Chain w.next w.clients l
  back : Backs w.pref .first l
  nodup : l.Nodup
  chains : Chains w.nextServ (fun s => (w.serv s).clients) lists
  count : ∀ s, (w.serv s).numClients = (lists s).length
  member : ∀ s c, c ∈ lists s ↔ w.live c = true ∧ w.service c = some s
  live : ∀ c, w.live c = true ↔ c ∈ l ∨ .clieClose c ∈ w.stack
  closing : ∀ c, .clieClose c ∈ w.stack → c ∉ l
  once : ∀ c, w.stack.count (.clieClose c) ≤ 1
  max : ∀ s, 0 < (w.serv s).maxClients →
    (w.serv s).numClients + w.stack.countP (Callback.waits s) ≤ (w.serv s).maxClients
  room : l.length ≤ w.allocs
  rooms : ∀ s, (lists s).length ≤ w.allocs

theorem sound_remove (h : Sound w l lists) (hc : c ∈ l) :
    Sound { w.clientRemove c with stack := .clieClose c :: w.stack } (l.erase c) lists := by
  obtain ⟨hchain, hback⟩ := clientRemove_spec h.chain h.back h.nodup hc
  have hnot : .clieClose c ∉ w.stack := fun hmem => h.closing c hmem hc
  refine { h with
    chain := hchain, back := hback, nodup := h.nodup.erase c, live := ?_, closing := ?_, once := ?_,
    max := ?_, room := ?_ }
  · intro d
    rw [h.nodup.mem_erase_iff, List.mem_cons]
    refine (h.live d).trans ?_
    by_cases hd : d = c
    · subst hd
      simp [hc]
    · simp [hd]
  · intro d hd
    rw [h.nodup.mem_erase_iff]
    rw [List.mem_cons] at hd
    rintro ⟨hne, hmem⟩
    cases hd with
    | inl heq =>
      injection heq with heq
      exact hne heq
    | inr hold => exact h.closing d hold hmem
  · intro d
    rw [List.count_cons]
    by_cases hd : d = c
    · subst hd
      rw [List.count_eq_zero.mpr hnot]
      simp
    · have hne : (Callback.clieClose c : Callback α κ) ≠ .clieClose d := by
        intro heq
        injection heq with heq
        exact hd heq.symm
      simp only [beq_iff_eq, hne, if_false, Nat.add_zero]
      exact h.once d
  · intro s hs
    rw [List.countP_cons]
    exact h.max s hs
  · exact Nat.le_trans (List.length_erase_le) h.room

theorem serviceRemoveClient_eq (w : World α κ) {s : κ}
    (hchains : Chains w.nextServ (fun t => (w.serv t).clients) lists) (hc : c ∈ lists s)
    (hroom : (lists s).length ≤ w.allocs) :
    ∃ nextServ clients,
      w.serviceRemoveClient s c = { w with
        nextServ
        serv := Function.update w.serv s { w.serv s with
          clients, numClients := (w.serv s).numClients - 1 } } ∧
      Chains nextServ (Function.update (fun t => (w.serv t).clients) s clients)
        (Function.update lists s ((lists s).erase c)) := by
  have hchain := hchains.chain s
  have hnodup := hchains.nodup s
  obtain ⟨front, back, hl, hfront, -, herase⟩ := exists_split hc hnodup
  have hfind : World.findLink ⟨(w.serv s).clients, w.nextServ⟩ c (w.allocs + 1) .first =
      some (Link.first.behind front) := by
    refine findLink_eq front back ?_ hfront ?_
    · rw [← hl]
      exact hchain
    · rw [hl] at hroom
      simp only [List.length_append, List.length_cons] at hroom
      omega
  refine ⟨_, _, by rw [World.serviceRemoveClient, hfind], ?_⟩
  rw [herase]
  refine hchains.replace ?_ ?_ ?_ ?_
  · rw [hl] at hchain hnodup
    exact Chain.unlink ⟨(w.serv s).clients, w.nextServ⟩ .first hchain hnodup (fun _ _ => nofun)
  · rw [← herase]
    exact hnodup.erase c
  · intro t ht
    refine Chain.write (s := ⟨(w.serv s).clients, w.nextServ⟩) (hchains.chain t) ?_
    intro b hb heq
    have hmem : b ∈ lists s := by
      rw [hl]
      exact List.mem_append_left _ (Link.mem_of_behind heq)
    exact ht (hchains.apart hb hmem)
  · intro b hb
    left
    rw [← herase] at hb
    exact List.mem_of_mem_erase hb

theorem sound_finish (h : Sound w l lists) {stack : List (Callback α κ)}
    (hstack : w.stack = .clieClose c :: stack) :
    ∃ lists', Sound ({ w with stack }.finishDisconnect c) l lists' := by
  have hlive : w.live c = true := (h.live c).mpr (.inr (hstack ▸ List.mem_cons_self))
  have hnot : c ∉ l := h.closing c (hstack ▸ List.mem_cons_self)
  have hnone : .clieClose c ∉ stack := by
    have honce := h.once c
    rw [hstack, List.count_cons_self] at honce
    exact List.count_eq_zero.mp (by omega)
  have hliveRest : ∀ d, Function.update w.live c false d = true ↔
      d ∈ l ∨ .clieClose d ∈ stack := by
    intro d
    by_cases hd : d = c
    · subst hd
      simp [hnot, hnone]
    · rw [Function.update_of_ne hd, h.live d, hstack]
      simp [hd]
  have hclosing : ∀ d, .clieClose d ∈ stack → d ∉ l := by
    intro d hd
    exact h.closing d (hstack ▸ List.mem_cons_of_mem _ hd)
  have honce : ∀ d, stack.count (.clieClose d) ≤ 1 := by
    intro d
    have honce := h.once d
    rw [hstack, List.count_cons] at honce
    omega
  have hwaits : ∀ s, w.stack.countP (Callback.waits s) = stack.countP (Callback.waits s) := by
    intro s
    rw [hstack, List.countP_cons]
    rfl
  cases hservice : w.service c with
  | none =>
    have hfinish : { w with stack }.finishDisconnect c = { w with
        stack
        clieClose := Function.update w.clieClose c false
        live := Function.update w.live c false } := by
      rw [World.finishDisconnect]
      dsimp only
      rw [hservice]
    rw [hfinish]
    refine ⟨lists, { h with
      member := ?_, live := hliveRest, closing := hclosing, once := honce, max := ?_ }⟩
    · intro s d
      rw [h.member s d]
      dsimp only
      by_cases hd : d = c
      · subst hd
        simp [hservice]
      · rw [Function.update_of_ne hd]
    · intro s hs
      rw [← hwaits s]
      exact h.max s hs
  | some s =>
    have hc : c ∈ lists s := (h.member s c).mpr ⟨hlive, hservice⟩
    obtain ⟨nextServ, clients, hremove, hchains⟩ := serviceRemoveClient_eq
      { w with stack, clieClose := Function.update w.clieClose c false } h.chains hc (h.rooms s)
    have hfinish : { w with stack }.finishDisconnect c = { w with
        stack
        clieClose := Function.update w.clieClose c false
        nextServ
        serv := Function.update w.serv s { w.serv s with
          clients, numClients := (w.serv s).numClients - 1 }
        service := Function.update w.service c none
        live := Function.update w.live c false } := by
      rw [World.finishDisconnect]
      dsimp only
      rw [hservice]
      dsimp only
      rw [hremove]
    rw [hfinish]
    refine ⟨Function.update lists s ((lists s).erase c), { h with
      chains := ?_, count := ?_, member := ?_, live := hliveRest, closing := hclosing
      once := honce, max := ?_, rooms := ?_ }⟩
    · dsimp only
      rw [clients_update]
      exact hchains
    · intro t
      dsimp only
      by_cases ht : t = s
      · subst ht
        have hpos := List.length_pos_of_mem hc
        have hcount := h.count t
        simp only [Function.update_self, List.length_erase_of_mem hc]
        omega
      · rw [Function.update_of_ne ht, Function.update_of_ne ht]
        exact h.count t
    · intro t d
      dsimp only
      by_cases hd : d = c
      · subst hd
        have hout : d ∉ Function.update lists s ((lists s).erase d) t := by
          by_cases ht : t = s
          · subst ht
            rw [Function.update_self]
            exact (h.chains.nodup t).not_mem_erase
          · rw [Function.update_of_ne ht]
            exact fun hmem => ht (h.chains.apart hmem hc)
        simp [hout]
      · rw [Function.update_of_ne hd, Function.update_of_ne hd, ← h.member t d]
        by_cases ht : t = s
        · subst ht
          rw [Function.update_self, List.mem_erase_of_ne hd]
        · rw [Function.update_of_ne ht]
    · intro t ht
      have hmax := h.max t
      rw [hwaits t] at hmax
      dsimp only at ht ⊢
      by_cases hts : t = s
      · subst hts
        rw [Function.update_self] at ht ⊢
        have hle := hmax ht
        dsimp only
        omega
      · rw [Function.update_of_ne hts] at ht ⊢
        exact hmax ht
    · intro t
      dsimp only
      by_cases ht : t = s
      · subst ht
        rw [Function.update_self]
        exact Nat.le_trans List.length_erase_le (h.rooms t)
      · rw [Function.update_of_ne ht]
        exact h.rooms t

theorem sound_disconnect (h : Sound w l lists) (hc : c ∈ l) :
    ∃ l' lists', Sound (w.clientDisconnect c) l' lists' := by
  have hremoved := sound_remove h hc
  rw [World.clientDisconnect]
  split
  · exact ⟨l.erase c, lists, hremoved⟩
  · exact ⟨l.erase c, sound_finish hremoved rfl⟩

theorem sound_clientAlloc (h : Sound w l lists) (hc : w.live c = false) (channel : Int)
    (clieClose : Bool) : Sound (w.clientAlloc c channel clieClose) (c :: l) lists := by
  have hcl : c ∉ l := by
    intro hmem
    rw [(h.live c).mpr (.inl hmem)] at hc
    cases hc
  have hclosing : .clieClose c ∉ w.stack := by
    intro hmem
    rw [(h.live c).mpr (.inr hmem)] at hc
    cases hc
  have hcs : ∀ s, c ∉ lists s := by
    intro s hmem
    rw [((h.member s c).mp hmem).1] at hc
    cases hc
  have halloc : w.clientAlloc c channel clieClose = { w with
      clients := some c
      next := Function.update w.next c w.clients
      pref := repoint (Function.update w.pref c .first) w.clients (.next c)
      nextServ := Function.update w.nextServ c none
      channel := Function.update w.channel c channel
      service := Function.update w.service c none
      clieClose := Function.update w.clieClose c clieClose
      live := Function.update w.live c true
      allocs := w.allocs + 1 } := by
    simp [World.clientAlloc, World.clientPrepend]
  rw [halloc]
  constructor
  case chain => exact h.chain.cons hcl
  case back =>
    dsimp only
    rw [h.chain.head?_eq]
    refine ⟨?_, (h.back.touch hcl .first).repoint h.nodup _⟩
    cases l with
    | nil => exact Function.update_self _ _ _
    | cons d l =>
      have hne : c ≠ d := fun heq => hcl (heq ▸ List.mem_cons_self)
      rw [List.head?_cons, repoint, Function.update_of_ne hne, Function.update_self]
  case nodup => exact List.nodup_cons.mpr ⟨hcl, h.nodup⟩
  case chains => exact h.chains.touch hcs none
  case count => exact h.count
  case member =>
    intro s d
    dsimp only
    by_cases hd : d = c
    · subst hd
      simp [hcs s]
    · rw [Function.update_of_ne hd, Function.update_of_ne hd]
      exact h.member s d
  case live =>
    intro d
    dsimp only
    by_cases hd : d = c
    · subst hd
      simp
    · rw [Function.update_of_ne hd, h.live d]
      simp [hd]
  case closing =>
    intro d hd
    rw [List.mem_cons]
    rintro (rfl | hmem)
    · exact hclosing hd
    · exact h.closing d hd hmem
  case once => exact h.once
  case max => exact h.max
  case room => exact Nat.succ_le_succ h.room
  case rooms => exact fun s => Nat.le_succ_of_le (h.rooms s)

theorem sound_addClient (h : Sound w l lists) {s : κ} {channel : Int}
    {stack : List (Callback α κ)} (hstack : w.stack = .servConnect s channel false :: stack)
    (hc : w.live c = true) (hservice : w.service c = none) (hroom : (lists s).length < w.allocs) :
    Sound { w.serviceAddClient s c with stack := .servConnect s channel true :: stack } l
      (Function.update lists s (c :: lists s)) := by
  have hcs : ∀ t, c ∉ lists t := by
    intro t hmem
    rw [((h.member t c).mp hmem).2] at hservice
    cases hservice
  rw [World.serviceAddClient]
  refine { h with
    chains := ?chains, count := ?count, member := ?member, live := ?live, closing := ?closing
    once := ?once, max := ?max, rooms := ?rooms }
  case chains =>
    dsimp only
    rw [clients_update]
    exact h.chains.push hcs s
  case count =>
    intro t
    dsimp only
    by_cases ht : t = s
    · subst ht
      have hcount := h.count t
      simp only [Function.update_self, List.length_cons]
      omega
    · rw [Function.update_of_ne ht, Function.update_of_ne ht]
      exact h.count t
  case member =>
    intro t d
    dsimp only
    by_cases hd : d = c
    · subst hd
      simp only [Function.update_self, hc, true_and, Option.some.injEq]
      by_cases ht : t = s
      · subst ht
        simp
      · rw [Function.update_of_ne ht]
        exact iff_of_false (hcs t) (fun heq => ht heq.symm)
    · rw [Function.update_of_ne hd, ← h.member t d]
      by_cases ht : t = s
      · subst ht
        simp [hd]
      · rw [Function.update_of_ne ht]
  case live =>
    intro d
    rw [h.live d, hstack]
    simp
  case closing =>
    intro d hd
    refine h.closing d ?_
    rw [hstack]
    simpa using hd
  case once =>
    intro d
    have honce := h.once d
    rw [hstack] at honce
    simpa [List.count_cons] using honce
  case max =>
    intro t ht
    have hmax := h.max t
    rw [hstack, List.countP_cons] at hmax
    dsimp only at ht ⊢
    rw [List.countP_cons]
    by_cases hts : t = s
    · subst hts
      rw [Function.update_self] at ht ⊢
      have hle := hmax ht
      simp only [Callback.waits, decide_true, Bool.not_false, Bool.and_self, if_true,
        Bool.not_true, Bool.and_false] at hle ⊢
      simp only [Bool.false_eq_true, if_false]
      omega
    · rw [Function.update_of_ne hts] at ht ⊢
      have hle := hmax ht
      have hother :
        ∀ made, Callback.waits t (.servConnect s channel made : Callback α κ) = false := by
        intro made
        simp [Callback.waits, Ne.symm hts]
      rw [hother] at hle ⊢
      exact hle
  case rooms =>
    intro t
    dsimp only
    by_cases ht : t = s
    · subst ht
      rw [Function.update_self]
      exact hroom
    · rw [Function.update_of_ne ht]
      exact h.rooms t

theorem sound_connect (h : Sound w l lists) (hstack : w.stack = []) (name : CString)
    (channel : Int) : Sound (w.multiplexerConnect name channel) l lists := by
  rw [World.multiplexerConnect]
  split
  · exact h
  · rename_i s _
    split
    · exact h
    · rename_i hroom
      refine { h with live := ?_, closing := ?_, once := ?_, max := ?_ }
      · intro d
        rw [h.live d]
        simp
      · intro d hd
        rw [hstack] at hd
        simp at hd
      · intro d
        rw [hstack]
        simp
      · intro t ht
        dsimp only at ht ⊢
        have hmax := h.max t ht
        rw [hstack] at hmax ⊢
        rw [List.countP_cons]
        rw [List.countP_nil] at hmax ⊢
        by_cases hts : t = s
        · subst hts
          have hless : ¬(w.serv t).numClients ≥ (w.serv t).maxClients := fun hge => hroom ⟨ht, hge⟩
          split <;> omega
        · have hother : Callback.waits t (.servConnect s channel false : Callback α κ) = false := by
            simp [Callback.waits, Ne.symm hts]
          rw [hother]
          exact hmax

theorem sound_multiplexerDisconnect (h : Sound w l lists) (channel : Int) :
    ∃ l' lists', Sound (w.multiplexerDisconnect channel) l' lists' := by
  rw [World.multiplexerDisconnect, findChannel_eq h.chain (Nat.lt_succ_of_le h.room)]
  split
  · exact ⟨l, lists, h⟩
  · rename_i c hfind
    exact sound_disconnect { h with } (List.mem_of_find?_eq_some hfind)

theorem sound_controlRecv (h : Sound w l lists) (hstack : w.stack = []) (version : QemudVersion)
    (msg : List UInt8) : ∃ l' lists', Sound (w.controlRecv version msg) l' lists' := by
  rw [World.controlRecv]
  split
  · exact ⟨l, lists, sound_connect h hstack _ _⟩
  · exact sound_multiplexerDisconnect h _
  · split
    · exact ⟨l, lists, h⟩
    · exact ⟨l, lists, sound_connect h hstack _ _⟩
  · exact ⟨l, lists, h⟩
  · exact ⟨l, lists, h⟩

theorem sound_of_init (h : Init w) : ∃ l lists, Sound w l lists := by
  obtain ⟨w₀, control, hclients, hlive, hserv, hstack, rfl⟩ := h
  have hempty : Sound w₀ [] fun _ => [] := by
    constructor
    case chain => exact hclients
    case back => trivial
    case nodup => exact List.nodup_nil
    case chains => exact ⟨fun s => (hserv s).1, fun _ => List.nodup_nil, fun ha => nomatch ha⟩
    case count => exact fun s => (hserv s).2
    case member => simp [hlive]
    case live => simp [hlive, hstack]
    case closing => simp
    case once => simp [hstack]
    case max =>
      intro s hs
      rw [(hserv s).2, hstack]
      simpa using Int.le_of_lt hs
    case room => exact Nat.zero_le _
    case rooms => exact fun _ => Nat.zero_le _
  exact ⟨_, _, sound_clientAlloc hempty (hlive control) 0 false⟩

theorem sound_step (h : ∃ l lists, Sound w l lists) {event : Event α} {w' : World α κ}
    (h' : step w event = some w') : ∃ l lists, Sound w' l lists := by
  obtain ⟨l, lists, h⟩ := h
  cases event with
  | control version msg =>
    rw [step] at h'
    split at h'
    case isTrue hstack => exact Option.some.inj h' ▸ sound_controlRecv h hstack version msg
    case isFalse => cases h'
  | clientNew c clieClose =>
    rw [step] at h'
    split at h'
    · rename_i s channel stack hstack
      split at h'
      · cases h'
      · rename_i hc
        rw [Bool.not_eq_true] at hc
        have halloc := sound_clientAlloc h hc channel clieClose
        rw [← Option.some.inj h']
        refine ⟨_, _, sound_addClient halloc hstack ?_ ?_ (Nat.lt_succ_of_le (h.rooms s))⟩
        · exact Function.update_self _ _ _
        · exact Function.update_self _ _ _
    · cases h'
  | connected =>
    rw [step] at h'
    split at h'
    · rename_i s channel made stack hstack
      rw [← Option.some.inj h']
      refine ⟨l, lists, { h with live := ?_, closing := ?_, once := ?_, max := ?_ }⟩
      · intro d
        rw [h.live d, hstack]
        simp
      · intro d hd
        exact h.closing d (hstack ▸ List.mem_cons_of_mem _ hd)
      · intro d
        have honce := h.once d
        rw [hstack, List.count_cons] at honce
        exact Nat.le_trans (Nat.le_add_right _ _) honce
      · intro t ht
        have hmax := h.max t ht
        rw [hstack, List.countP_cons] at hmax
        dsimp only
        omega
    · cases h'
  | clientClose c =>
    rw [step] at h'
    split at h'
    case isTrue hc =>
      have hmem : c ∈ l := by
        cases (h.live c).mp hc.1 with
        | inl hmem => exact hmem
        | inr hclosing => exact (hc.2.2 hclosing).elim
      exact Option.some.inj h' ▸ sound_disconnect h hmem
    case isFalse => cases h'
  | closed =>
    rw [step] at h'
    split at h'
    · rename_i c stack hstack
      exact Option.some.inj h' ▸ ⟨l, sound_finish h hstack⟩
    · cases h'

/-- All clients are on `l`, except those whose `clie_close` runs, and every client of a service
is on the list of the service.  The pointers of both lists are right, the services count their
clients, and what has been disconnected is on no list. -/
structure Listed (w : World α κ) (l : List α) (lists : κ → List α) : Prop where
  chain : Chain w.next w.clients l
  back : Backs w.pref .first l
  nodup : l.Nodup
  servChain : ∀ s, Chain w.nextServ (w.serv s).clients (lists s)
  servNodup : ∀ s, (lists s).Nodup
  count : ∀ s, (w.serv s).numClients = (lists s).length
  member : ∀ s, ∀ c ∈ lists s, w.service c = some s ∧ (c ∈ l ∨ .clieClose c ∈ w.stack)
  closing : ∀ c, .clieClose c ∈ w.stack → c ∉ l
  max : ∀ s, 0 < (w.serv s).maxClients → (w.serv s).numClients ≤ (w.serv s).maxClients
  freed : ∀ c, w.live c = false → c ∉ l ∧ ∀ s, c ∉ lists s

theorem reachable_listed (h : Machine.Reachable Init step w) : ∃ l lists, Listed w l lists := by
  obtain ⟨l, lists, hs⟩ := h.invariant (fun _ => sound_of_init) (fun _ _ _ hw => sound_step hw)
  refine ⟨l, lists, ?_⟩
  constructor
  case chain => exact hs.chain
  case back => exact hs.back
  case nodup => exact hs.nodup
  case servChain => exact hs.chains.chain
  case servNodup => exact hs.chains.nodup
  case count => exact hs.count
  case member =>
    intro s c hc
    obtain ⟨hlive, hservice⟩ := (hs.member s c).mp hc
    exact ⟨hservice, (hs.live c).mp hlive⟩
  case closing => exact hs.closing
  case max =>
    intro s hpos
    have hle := hs.max s hpos
    omega
  case freed =>
    intro c hc
    constructor
    · intro hmem
      rw [(hs.live c).mpr (.inl hmem)] at hc
      cases hc
    · intro s hmem
      rw [((hs.member s c).mp hmem).1] at hc
      cases hc

/-- Two services, of which `a` takes two clients, and no client yet. -/
def services : World Nat Bool where
  clients := none
  next _ := none
  pref _ := .first
  nextServ _ := none
  channel _ := 0
  service _ := none
  clieClose _ := false
  live _ := false
  services := [true, false]
  serv s := ⟨if s then ascii "a" else ascii "b", if s then 2 else 0, 0, none⟩
  stack := []
  allocs := 0

/-- Of four connections one is refused, and the client in the middle of a list is closed. -/
theorem reachable_listed_closed :
    ∃ (w : World Nat Bool) (l : List Nat) (lists : Bool → List Nat), w.clients = some 3 ∧
      w.next 3 = some 1 ∧ w.pref 1 = .next 3 ∧ (w.serv true).numClients = 1 ∧ w.stack = [] ∧
      Listed w l lists := by
  obtain ⟨w, hw, h⟩ := Machine.exists_reachable Init step
    [.control .normal (ascii "connect:a:01"), .clientNew 1 true, .connected,
      .control .normal (ascii "connect:a:02"), .clientNew 2 true, .connected,
      .control .normal (ascii "connect:b:03"), .clientNew 3 false, .connected,
      .control .normal (ascii "connect:a:04"), .control .normal (ascii "disconnect:zz"),
      .control .normal (ascii "disconnect:02"), .closed]
    (fun w => decide (w.clients = some 3 ∧ w.next 3 = some 1 ∧ w.pref 1 = .next 3 ∧
      (w.serv true).numClients = 1 ∧ w.stack = []))
    (s := services.clientAlloc 0 0 false)
    ⟨services, 0, rfl, fun _ => rfl, fun _ => ⟨rfl, rfl⟩, rfl, rfl⟩ (by decide +kernel)
  obtain ⟨hclients, hnext, hpref, hcount, hstack⟩ := of_decide_eq_true h
  obtain ⟨l, lists, hl⟩ := reachable_listed hw
  exact ⟨w, l, lists, hclients, hnext, hpref, hcount, hstack, hl⟩

end M2M.Qemud.ClientLists
