import QServ.Masterserver.Clients

/-!
# Invariants of the master server

What holds of the lists and of the clients in every state that is reached.

* `State.Inv`: the lists are counted, and every client is fine.
* `State.Inv.replace`, `State.Inv.remove`: a client among the others.
* `State.Inv.gengbanlist`: a new list of bans.
* `State.Inv.step`: every event keeps this up.
-/

namespace QServ

namespace Masterserver

/-! ## The state -/

/-- How many clients have a list as their message. -/
def holders (clients : List Client) (o : Owner) (id : Nat) : Nat :=
  clients.countP fun c => c.message = some (o, id)

theorem holders_map {clients : List Client} {f : Client → Client}
    (hf : ∀ c ∈ clients, (f c).message = c.message) : holders (clients.map f) = holders clients := by
  funext o id
  unfold holders
  rw [List.countP_map]
  exact List.countP_congr fun c hc => by simp [hf c hc]

/-- One client among others. -/
theorem holders_cons (l₁ l₂ : List Client) (c : Client) (o : Owner) (id : Nat) :
    holders (l₁ ++ c :: l₂) o id =
      holders (l₁ ++ l₂) o id + if c.message = some (o, id) then 1 else 0 := by
  simp only [holders, List.countP_append, List.countP_cons, decide_eq_true_eq]
  omega

namespace State

/-- The lists are counted, those of bans end with a newline, the servers have ports, and every client
is fine. -/
structure Inv (s : State) : Prop where
  nodup : (s.clients.map Client.conn).Nodup
  conns : ∀ c ∈ s.clients, c.conn < s.accepted
  counted : ∀ o, Pool.Counted (s.lists o) (holders s.clients o)
  made : ∀ o, ∀ i ∈ Pool.ids (s.lists o), i < s.made
  ends : ∀ l ∈ s.lists .bans, l.body.getLast? = some newline
  ports : ∀ g ∈ s.gameservers, 0 ≤ g.port
  fine : ∀ c ∈ s.clients, Fine s.lists c

/-- For every list there is one that is as new. -/
def Covers (s t : State) : Prop := ∀ o, Pool.Covers (s.lists o) (t.lists o)

/-- A step that does not fail and keeps up the invariant. -/
def Keeps (s : State) (x : Except Fault State) : Prop := ∃ t, x = .ok t ∧ t.Inv ∧ Covers s t

variable {s t u : State} {conn : Nat} {c c' : Client}

theorem Covers.refl (s : State) : Covers s s := fun _ => .of_subset (List.Subset.refl _)

theorem Covers.of_eq (h : t.lists = s.lists) : Covers s t := fun o => by
  rw [h]
  exact .of_subset (List.Subset.refl _)

theorem Covers.trans (h : Covers s t) (h' : Covers t u) : Covers s u := fun o => (h o).trans (h' o)

theorem Keeps.bind {x : Except Fault State} {f : State → Except Fault State} (h : Keeps s x)
    (hf : ∀ t, t.Inv → Keeps t (f t)) : Keeps s (x.bind f) := by
  obtain ⟨t, rfl, hinv, hcovers⟩ := h
  obtain ⟨u, hu, hinv', hcovers'⟩ := hf t hinv
  exact ⟨u, hu, hinv', hcovers.trans hcovers'⟩

theorem Keeps.map {x : Except Fault State} {f : State → State} (h : Keeps s x)
    (hf : ∀ t, t.Inv → (f t).Inv ∧ Covers t (f t)) : Keeps s (x.map f) := by
  obtain ⟨t, rfl, hinv, hcovers⟩ := h
  obtain ⟨hinv', hcovers'⟩ := hf t hinv
  exact ⟨f t, rfl, hinv', hcovers.trans hcovers'⟩

theorem Keeps.of_inv (h : t.Inv) (hlists : t.lists = s.lists) : Keeps s (.ok t) :=
  ⟨t, rfl, h, .of_eq hlists⟩

/-- Fields that nothing depends on. -/
theorem Inv.of_eq (h : s.Inv) (hclients : t.clients = s.clients) (haccepted : t.accepted = s.accepted)
    (hlists : t.lists = s.lists) (hmade : t.made = s.made)
    (hports : ∀ g ∈ t.gameservers, 0 ≤ g.port) : t.Inv := by
  refine ⟨?_, ?_, ?_, ?_, ?_, hports, ?_⟩
  · rw [hclients]
    exact h.nodup
  · rw [hclients, haccepted]
    exact h.conns
  · rw [hclients, hlists]
    exact h.counted
  · rw [hlists, hmade]
    exact h.made
  · rw [hlists]
    exact h.ends
  · rw [hclients, hlists]
    exact h.fine

/-- The clients are changed, but not their messages. -/
theorem Inv.map (h : s.Inv) {f : Client → Client} (hconn : ∀ c ∈ s.clients, (f c).conn = c.conn)
    (hmessage : ∀ c ∈ s.clients, (f c).message = c.message)
    (hfine : ∀ c ∈ s.clients, Fine s.lists (f c)) :
    ({ s with clients := s.clients.map f } : State).Inv := by
  refine ⟨?_, fun d hd => ?_, fun o => ?_, h.made, h.ends, h.ports, fun d hd => ?_⟩
  · change ((s.clients.map f).map Client.conn).Nodup
    have hsame : s.clients.map (Client.conn ∘ f) = s.clients.map Client.conn :=
      List.map_congr_left hconn
    rw [List.map_map, hsame]
    exact h.nodup
  · obtain ⟨c, hc, rfl⟩ := List.mem_map.mp hd
    rw [hconn c hc]
    exact h.conns c hc
  · change Pool.Counted _ (holders (s.clients.map f) o)
    rw [holders_map hmessage]
    exact h.counted o
  · obtain ⟨c, hc, rfl⟩ := List.mem_map.mp hd
    exact hfine c hc

/-- A client is changed, but not his message. -/
theorem Inv.update (h : s.Inv) {f : Client → Client}
    (hconn : ∀ c ∈ s.clients, c.conn = conn → (f c).conn = c.conn)
    (hmessage : ∀ c ∈ s.clients, c.conn = conn → (f c).message = c.message)
    (hfine : ∀ c ∈ s.clients, c.conn = conn → Fine s.lists (f c)) : (s.update conn f).Inv := by
  refine h.map (fun c hc => ?_) (fun c hc => ?_) fun c hc => ?_
  all_goals split
  · next heq => exact hconn c hc heq
  · rfl
  · next heq => exact hmessage c hc heq
  · rfl
  · next heq => exact hfine c hc heq
  · exact h.fine c hc

theorem Inv.outputf (h : s.Inv) (conn : Nat) (msg : List UInt8) : (s.outputf conn msg).Inv :=
  h.update (fun _ _ _ => rfl) (fun _ _ _ => rfl) fun c hc _ => (h.fine c hc).outputf msg

/-- A client among the others. -/
theorem Inv.split (h : s.Inv) (hc : c ∈ s.clients) : ∃ l₁ l₂, s.clients = l₁ ++ c :: l₂ ∧
    ∀ d ∈ l₁ ++ l₂, d.conn ≠ c.conn :=
  Keyed.lookup_split h.nodup (Keyed.lookup_of_mem h.nodup hc)

/-- The text of a message that is still held is the same. -/
theorem text_congr {lists lists' : Lists} (hbody : ∀ o id, c.message = some (o, id) →
    Pool.body id (lists' o) = Pool.body id (lists o)) : text lists' c = text lists c := by
  unfold text
  split
  · rfl
  · next o id hmessage => rw [hbody o id hmessage]

theorem text_of_body {lists : Lists} {o : Owner} {id : Nat} {t : List UInt8}
    (hmessage : c.message = some (o, id)) (hbody : Pool.body id (lists o) = some t) :
    text lists c = t := by
  unfold text
  simp [hmessage, hbody]

/-- **A client is replaced** by one that may have another message. -/
theorem Inv.replace (h : s.Inv) {l₁ l₂ : List Client} (hs : s.clients = l₁ ++ c :: l₂)
    (ht : t.clients = l₁ ++ c' :: l₂) (hconn : c'.conn = c.conn) (haccepted : t.accepted = s.accepted)
    (hmade : t.made = s.made) (hservers : t.gameservers = s.gameservers) (hcounted : ∀ o, Pool.Counted (t.lists o) (holders t.clients o))
    (hmem : ∀ o, ∀ l ∈ t.lists o, ∃ k ∈ s.lists o, k.id = l.id ∧ k.body = l.body)
    (hbody : ∀ o id, 0 < holders t.clients o id →
      Pool.body id (t.lists o) = Pool.body id (s.lists o))
    (hfine : Fine t.lists c') : t.Inv := by
  refine ⟨?_, fun d hd => ?_, hcounted, fun o i hi => ?_, fun l hl => ?_, hservers ▸ h.ports,
    fun d hd => ?_⟩
  · have hnodup := h.nodup
    rw [hs, List.map_append, List.map_cons] at hnodup
    rw [ht, List.map_append, List.map_cons, hconn]
    exact hnodup
  · rw [haccepted]
    rw [ht] at hd
    obtain hd | hd := List.mem_append.mp hd
    · exact h.conns d (by simp [hs, hd])
    · obtain rfl | hd := List.mem_cons.mp hd
      · rw [hconn]
        exact h.conns c (by simp [hs])
      · exact h.conns d (by simp [hs, hd])
  · obtain ⟨l, hl, rfl⟩ := List.mem_map.mp hi
    obtain ⟨k, hk, hid, -⟩ := hmem o l hl
    rw [hmade, ← hid]
    exact h.made o k.id (List.mem_map_of_mem hk)
  · obtain ⟨k, hk, -, hsame⟩ := hmem .bans l hl
    rw [← hsame]
    exact h.ends k hk
  · have hothers : d ∈ s.clients → Fine t.lists d := fun hold => by
      refine (h.fine d hold).congr (text_congr fun o id hmessage => hbody o id ?_)
      exact List.countP_pos_iff.mpr ⟨d, hd, decide_eq_true hmessage⟩
    rw [ht] at hd
    obtain hd' | hd' := List.mem_append.mp hd
    · exact hothers (by simp [hs, hd'])
    · obtain rfl | hd' := List.mem_cons.mp hd'
      · exact hfine
      · exact hothers (by simp [hs, hd'])

theorem modify_client {l₁ l₂ : List Client} (hs : s.clients = l₁ ++ c :: l₂)
    (hother : ∀ d ∈ l₁ ++ l₂, d.conn ≠ c.conn) (f : Client → Client) :
    (s.update c.conn f).clients = l₁ ++ f c :: l₂ := by
  change Keyed.modify Client.conn c.conn f s.clients = _
  rw [hs]
  exact Keyed.modify_split rfl hother

/-- **A list is given** to a client without a message. -/
theorem Inv.give (h : s.Inv) (hc : c ∈ s.clients) (hnone : c.message = none) {o : Owner} {id : Nat}
    (hid : id ∈ Pool.ids (s.lists o)) {f : Client → Client} (hconn : ∀ c, (f c).conn = c.conn)
    (hmessage : ∀ c, (f c).message = c.message) (hfine : Fine s.lists (f (c.take (o, id)))) :
    ((s.give c.conn o id).update c.conn f).Inv ∧
      Covers s ((s.give c.conn o id).update c.conn f) := by
  obtain ⟨l₁, l₂, hs, hother⟩ := h.split hc
  have hgive : (s.give c.conn o id).clients = l₁ ++ c.take (o, id) :: l₂ :=
    modify_client hs hother _
  have ht : ((s.give c.conn o id).update c.conn f).clients = l₁ ++ f (c.take (o, id)) :: l₂ :=
    modify_client (c := c.take (o, id)) hgive hother f
  have hlists : ((s.give c.conn o id).update c.conn f).lists =
      Function.update s.lists o (Pool.retain id (s.lists o)) := rfl
  have hbody : ∀ o' i, Pool.body i (Function.update s.lists o (Pool.retain id (s.lists o)) o') =
      Pool.body i (s.lists o') := by
    intro o' i
    by_cases ho : o' = o
    · subst ho
      rw [Function.update_self]
      exact Pool.body_recount
    · rw [Function.update_of_ne ho]
  have hholders : ∀ o' i, holders ((s.give c.conn o id).update c.conn f).clients o' i =
      holders s.clients o' i + if (o', i) = (o, id) then 1 else 0 := by
    intro o' i
    have hnew : (f (c.take (o, id))).message = some (o, id) := hmessage _
    rw [ht, hs, holders_cons, holders_cons, hnew, hnone]
    simp [eq_comm]
  refine ⟨h.replace hs ht (hconn _) rfl rfl rfl (fun o' => ?_) (fun o' l hl => ?_)
    (fun o' i _ => hbody o' i) (hfine.congr (text_congr fun o' i _ => hbody o' i)), fun o' => ?_⟩
  · rw [hlists]
    by_cases ho : o' = o
    · subst ho
      rw [Function.update_self]
      refine ((h.counted o').retain hid).congr fun i => ?_
      rw [hholders]
      by_cases hi : i = id
      · subst hi
        simp
      · simp [hi]
    · rw [Function.update_of_ne ho]
      refine (h.counted o').congr fun i => ?_
      rw [hholders]
      simp [ho]
  · rw [hlists] at hl
    by_cases ho : o' = o
    · subst ho
      rw [Function.update_self] at hl
      obtain ⟨k, hk, hkid, hkbody, -⟩ := Pool.mem_recount hl
      exact ⟨k, hk, hkid, hkbody⟩
    · rw [Function.update_of_ne ho] at hl
      exact ⟨l, hl, rfl, rfl⟩
  · rw [hlists]
    by_cases ho : o' = o
    · subst ho
      rw [Function.update_self]
      exact .of_subset (by simp [Pool.retain])
    · rw [Function.update_of_ne ho]
      exact .of_subset (List.Subset.refl _)

/-- What `messagebuf::purge` does when one client less has the list. -/
theorem Inv.released (h : s.Inv) {o : Owner} {id : Nat} {clients : List Client}
    (hholders : ∀ o' i, holders s.clients o' i =
      holders clients o' i + if (o', i) = (o, id) then 1 else 0) :
    (∀ o', Pool.Counted (Function.update s.lists o (Pool.release id (s.lists o)) o')
        (holders clients o')) ∧
      (∀ o' i, 0 < holders clients o' i →
        Pool.body i (Function.update s.lists o (Pool.release id (s.lists o)) o') =
          Pool.body i (s.lists o')) ∧
      (∀ o', ∀ l ∈ Function.update s.lists o (Pool.release id (s.lists o)) o',
        ∃ k ∈ s.lists o', k.id = l.id ∧ k.body = l.body) ∧
      ∀ o', Pool.Covers (s.lists o')
        (Function.update s.lists o (Pool.release id (s.lists o)) o') := by
  have hpos : 0 < holders s.clients o id := by
    rw [hholders]
    simp
  obtain ⟨hcounted, hcovers, hbody⟩ := (h.counted o).release hpos
  have hless : ∀ i, holders clients o i =
      Function.update (holders s.clients o) id (holders s.clients o id - 1) i := by
    intro i
    by_cases hi : i = id
    · subst hi
      rw [Function.update_self, hholders]
      simp
    · rw [Function.update_of_ne hi, hholders]
      simp [hi]
  have hsame : ∀ o', o' ≠ o → ∀ i, holders clients o' i = holders s.clients o' i := by
    intro o' ho i
    rw [hholders]
    simp [ho]
  refine ⟨fun o' => ?_, fun o' i hi => ?_, fun o' l hl => ?_, fun o' => ?_⟩
  all_goals by_cases ho : o' = o
  · subst ho
    rw [Function.update_self]
    exact hcounted.congr hless
  · rw [Function.update_of_ne ho]
    exact (h.counted o').congr (hsame o' ho)
  · subst ho
    rw [Function.update_self]
    exact hbody i (hless i ▸ hi)
  · rw [Function.update_of_ne ho]
  · subst ho
    rw [Function.update_self] at hl
    exact Pool.mem_release hl
  · rw [Function.update_of_ne ho] at hl
    exact ⟨l, hl, rfl, rfl⟩
  · subst ho
    rw [Function.update_self]
    exact hcovers
  · rw [Function.update_of_ne ho]
    exact .of_subset (List.Subset.refl _)

/-- A list that a client has is not deleted. -/
theorem Inv.purge_eq (h : s.Inv) (hc : c ∈ s.clients) {o : Owner} {id : Nat}
    (hmessage : c.message = some (o, id)) : s.purge (o, id) =
      .ok { s with lists := Function.update s.lists o (Pool.release id (s.lists o)) } := by
  have hpos : 0 < holders s.clients o id :=
    List.countP_pos_iff.mpr ⟨c, hc, decide_eq_true hmessage⟩
  exact if_pos ((h.counted o).held id hpos)

theorem Inv.text_eq (h : s.Inv) (hc : c ∈ s.clients) {o : Owner} {id : Nat}
    (hmessage : c.message = some (o, id)) :
    Pool.body id (s.lists o) = some (text s.lists c) := by
  have hpos : 0 < holders s.clients o id :=
    List.countP_pos_iff.mpr ⟨c, hc, decide_eq_true hmessage⟩
  obtain ⟨t, ht⟩ := Pool.body_some ((h.counted o).held id hpos)
  rw [ht, text, hmessage]
  simp [ht]

/-- **A client is removed.** -/
theorem Inv.remove (h : s.Inv) {l₁ l₂ : List Client} (hs : s.clients = l₁ ++ c :: l₂)
    (ht : t.clients = l₁ ++ l₂) (haccepted : t.accepted = s.accepted) (hmade : t.made = s.made)
    (hservers : t.gameservers = s.gameservers) (hcounted : ∀ o, Pool.Counted (t.lists o) (holders t.clients o))
    (hmem : ∀ o, ∀ l ∈ t.lists o, ∃ k ∈ s.lists o, k.id = l.id ∧ k.body = l.body)
    (hbody : ∀ o id, 0 < holders t.clients o id →
      Pool.body id (t.lists o) = Pool.body id (s.lists o)) : t.Inv := by
  have hold : ∀ d ∈ t.clients, d ∈ s.clients := fun d hd => by
    rw [ht] at hd
    obtain hd | hd := List.mem_append.mp hd <;> simp [hs, hd]
  refine ⟨?_, fun d hd => ?_, hcounted, fun o i hi => ?_, fun l hl => ?_, hservers ▸ h.ports,
    fun d hd => ?_⟩
  · have hnodup := h.nodup
    rw [hs] at hnodup
    rw [ht]
    exact hnodup.sublist (((List.Sublist.refl _).append (List.sublist_cons_self _ _)).map _)
  · rw [haccepted]
    exact h.conns d (hold d hd)
  · obtain ⟨l, hl, rfl⟩ := List.mem_map.mp hi
    obtain ⟨k, hk, hid, -⟩ := hmem o l hl
    rw [hmade, ← hid]
    exact h.made o k.id (List.mem_map_of_mem hk)
  · obtain ⟨k, hk, -, hsame⟩ := hmem .bans l hl
    rw [← hsame]
    exact h.ends k hk
  · refine (h.fine d (hold d hd)).congr (text_congr fun o id hmessage => hbody o id ?_)
    exact List.countP_pos_iff.mpr ⟨d, hd, decide_eq_true hmessage⟩

/-- **`purgeclient`.** -/
theorem Inv.purgeclient (h : s.Inv) (conn : Nat) : Keeps s (s.purgeclient conn) := by
  unfold State.purgeclient
  cases hl : Keyed.lookup Client.conn conn s.clients with
  | none => exact .of_inv h rfl
  | some c =>
    obtain ⟨hc, rfl⟩ := Keyed.lookup_mem hl
    obtain ⟨l₁, l₂, hs, hother⟩ := h.split hc
    have hremove : Keyed.remove Client.conn c.conn s.clients = l₁ ++ l₂ := by
      rw [hs]
      exact Keyed.remove_split rfl hother
    dsimp only
    cases hmessage : c.message with
    | none =>
      have hpurge : s.purgemessage c = .ok s := by
        unfold purgemessage
        rw [hmessage]
      rw [hpurge]
      refine ⟨{ s with clients := Keyed.remove Client.conn c.conn s.clients }, rfl,
        h.remove hs hremove rfl rfl rfl (fun o => ?_) (fun o l hl => ⟨l, hl, rfl, rfl⟩)
          fun o id _ => rfl, .of_eq rfl⟩
      refine (h.counted o).congr fun i => ?_
      change holders (Keyed.remove Client.conn c.conn s.clients) o i = _
      rw [hremove, hs, holders_cons, hmessage]
      simp
    | some message =>
      obtain ⟨o, id⟩ := message
      have hpurge : s.purgemessage c =
          .ok { s with lists := Function.update s.lists o (Pool.release id (s.lists o)) } := by
        unfold purgemessage
        rw [hmessage]
        exact h.purge_eq hc hmessage
      have hholders : ∀ o' i, holders s.clients o' i =
          holders (l₁ ++ l₂) o' i + if (o', i) = (o, id) then 1 else 0 := by
        intro o' i
        rw [hs, holders_cons, hmessage]
        simp [eq_comm]
      obtain ⟨hcounted, hbody, hmem, hcovers⟩ := h.released hholders
      rw [← hremove] at hcounted hbody
      rw [hpurge]
      exact ⟨_, rfl, h.remove hs hremove rfl rfl rfl hcounted hmem hbody, hcovers⟩

/-- **A message is sent.** -/
theorem Inv.finish (h : s.Inv) (hc : c ∈ s.clients)
    (hdone : (pending s.lists c).length ≤ c.outputpos) :
    Keeps s (s.finish c (pending s.lists c)) := by
  unfold State.finish
  by_cases hout : c.output = []
  · rw [if_neg (not_not.mpr hout)]
    rw [Fine.pending_of_nil hout] at hdone ⊢
    cases hmessage : c.message with
    | none => exact .of_inv h rfl
    | some message =>
      obtain ⟨o, id⟩ := message
      obtain ⟨l₁, l₂, hs, hother⟩ := h.split hc
      have hfine := (h.fine c hc).finishmessage hout hmessage hdone
      have ht := modify_client hs hother (Client.finishmessage · (o, id) (text s.lists c))
      have hholders : ∀ o' i, holders s.clients o' i =
          holders (l₁ ++ c.finishmessage (o, id) (text s.lists c) :: l₂) o' i +
            if (o', i) = (o, id) then 1 else 0 := by
        intro o' i
        rw [hs, holders_cons, holders_cons, hmessage]
        simp [Client.finishmessage, eq_comm]
      obtain ⟨hcounted, hbody, hmem, hcovers⟩ := h.released hholders
      dsimp only
      rw [h.purge_eq hc hmessage]
      rw [← ht] at hcounted hbody
      exact ⟨_, rfl, h.replace hs ht rfl rfl rfl rfl hcounted hmem hbody (hfine.congr rfl), hcovers⟩
  · rw [if_pos hout]
    refine .of_inv (h.update (fun _ _ _ => rfl) (fun _ _ _ => rfl) fun d hd heq => ?_) rfl
    obtain rfl := List.inj_on_of_nodup_map h.nodup hd hc heq
    rw [Fine.pending_of_output hout] at hdone
    exact (h.fine d hd).finishoutput hout hdone

theorem Inv.complete (h : s.Inv) (hc : c ∈ s.clients)
    (hdone : (pending s.lists c).length ≤ c.outputpos) :
    Keeps s (s.complete c (pending s.lists c)) := by
  refine (h.finish hc hdone).bind fun t ht => ?_
  split
  · exact .of_inv ht rfl
  · next d _ =>
    split
    · exact ht.purgeclient d.conn
    · exact .of_inv ht rfl

theorem Inv.current_eq (h : s.Inv) (hc : c ∈ s.clients) :
    s.current c = .ok (pending s.lists c) := by
  unfold current pending
  split
  · rfl
  · unfold text
    cases hmessage : c.message with
    | none => rfl
    | some message =>
      have htext := h.text_eq hc hmessage
      simp [htext]

/-- **The sending part of `checkclients`.** -/
theorem Inv.send (h : s.Inv) (conn : Nat) (result : Option Nat) (beyond : List UInt8) :
    Keeps s (s.send conn result beyond) := by
  unfold State.send
  cases hl : Keyed.lookup Client.conn conn s.clients with
  | none => exact .of_inv h rfl
  | some c =>
    obtain ⟨hc, rfl⟩ := Keyed.lookup_mem hl
    dsimp only
    split
    · next hready =>
      rw [h.current_eq hc]
      dsimp only [Except.bind]
      cases result with
      | none => exact h.purgeclient c.conn
      | some res =>
        have hany : c.message ≠ none ∨ c.output ≠ [] := by
          simpa [Option.isSome_iff_ne_none] using hready.2
        have hbytes : c.outputpos ≤ (pending s.lists c).length →
            c.taken (pending s.lists c) res beyond =
              ((pending s.lists c).drop c.outputpos).take res := fun hle => if_pos hle
        dsimp only
        generalize c.taken (pending s.lists c) res beyond = bytes at hbytes ⊢
        have hinv : (s.update c.conn (Client.advance · bytes)).Inv := by
          refine h.update (fun _ _ _ => rfl) (fun _ _ _ => rfl) fun d hd heq => ?_
          obtain rfl := List.inj_on_of_nodup_map h.nodup hd hc heq
          exact (h.fine d hd).advance hready.1 hany res hbytes
        split
        · next hdone =>
          have hmem : c.advance bytes ∈ (s.update c.conn (Client.advance · bytes)).clients :=
            List.mem_map.mpr ⟨c, hc, if_pos rfl⟩
          obtain ⟨t, ht, hinv', hcovers⟩ := hinv.complete hmem hdone
          exact ⟨t, ht, hinv', hcovers⟩
        · exact .of_inv hinv rfl
    · exact .of_inv h rfl

/-! ## New lists -/

/-- Nobody has the list that is made next. -/
theorem Inv.not_made (h : s.Inv) (hc : c ∈ s.clients) (o : Owner) :
    c.message ≠ some (o, s.made) := by
  intro hmessage
  have hpos : 0 < holders s.clients o s.made :=
    List.countP_pos_iff.mpr ⟨c, hc, decide_eq_true hmessage⟩
  exact Nat.lt_irrefl _ (h.made o _ ((h.counted o).held _ hpos))

theorem Inv.holders_made (h : s.Inv) (o : Owner) : holders s.clients o s.made = 0 :=
  List.countP_eq_zero.mpr fun _ hc hmessage => h.not_made hc o (of_decide_eq_true hmessage)

/-- A list that is held is held further on when there is a newer one. -/
theorem Inv.body_supersede (h : s.Inv) (o : Owner) {f : List UInt8 → List UInt8}
    {new : Pool.Cell (List UInt8)} (hnew : new.id = s.made) (hc : c ∈ s.clients) {id : Nat}
    (hmessage : c.message = some (o, id)) :
    Pool.body id (Pool.supersede f new (s.lists o)) = some (f (text s.lists c)) := by
  have hpos : 0 < holders s.clients o id :=
    List.countP_pos_iff.mpr ⟨c, hc, decide_eq_true hmessage⟩
  obtain ⟨-, -, hbody, -⟩ := (h.counted o).supersede f fun i hi => hnew ▸ h.made o i hi
  rw [hbody id hpos, h.text_eq hc hmessage]
  rfl

theorem Inv.made_supersede (h : s.Inv) (o : Owner) {f : List UInt8 → List UInt8}
    {new : Pool.Cell (List UInt8)} (hnew : new.id = s.made) :
    ∀ o', ∀ i ∈ Pool.ids (Function.update s.lists o (Pool.supersede f new (s.lists o)) o'),
      i < s.made + 1 := by
  intro o' i hi
  by_cases ho : o' = o
  · subst ho
    rw [Function.update_self] at hi
    obtain ⟨l, hl, rfl⟩ := List.mem_map.mp hi
    rw [(h.counted o').supersede_eq] at hl
    obtain hl | hl := List.mem_append.mp hl
    · obtain ⟨k, hk, rfl⟩ := List.mem_map.mp hl
      exact Nat.lt_succ_of_lt
        (h.made o' k.id (List.mem_map_of_mem (List.mem_filter.mp hk).1))
    · rw [List.mem_singleton.mp hl, hnew]
      exact Nat.lt_succ_self _
  · rw [Function.update_of_ne ho] at hi
    exact Nat.lt_succ_of_lt (h.made o' i hi)

theorem Inv.covers_supersede (h : s.Inv) (o : Owner) {f : List UInt8 → List UInt8}
    {new : Pool.Cell (List UInt8)} (hnew : new.id = s.made) :
    ∀ o', Pool.Covers (s.lists o')
      (Function.update s.lists o (Pool.supersede f new (s.lists o)) o') := by
  intro o'
  by_cases ho : o' = o
  · subst ho
    rw [Function.update_self]
    exact ((h.counted o').supersede f fun i hi => hnew ▸ h.made o' i hi).2.1
  · rw [Function.update_of_ne ho]
    exact .of_subset (List.Subset.refl _)

/-- **`genserverlist`.** -/
theorem Inv.genserverlist (h : s.Inv) : s.genserverlist.Inv ∧ Covers s s.genserverlist := by
  unfold State.genserverlist
  split
  · refine ⟨⟨h.nodup, h.conns, fun o => ?_, h.made_supersede .servers rfl, h.ends, h.ports,
      fun c hc => ?_⟩,
      h.covers_supersede .servers rfl⟩
    · change Pool.Counted (Function.update s.lists .servers _ o) (holders s.clients o)
      by_cases ho : o = .servers
      · subst ho
        rw [Function.update_self]
        refine ((h.counted _).supersede id (h.made _)).1.congr fun i => ?_
        by_cases hi : i = s.made
        · subst hi
          rw [Function.update_self]
          exact h.holders_made _
        · exact (Function.update_of_ne hi ..).symm
      · rw [Function.update_of_ne ho]
        exact h.counted o
    · refine (h.fine c hc).congr (text_congr fun o i hmessage => ?_)
      by_cases ho : o = .servers
      · subst ho
        dsimp only
        rw [Function.update_self, h.body_supersede .servers rfl hc hmessage, h.text_eq hc hmessage]
        rfl
      · dsimp only
        rw [Function.update_of_ne ho]
  · exact ⟨h, .refl s⟩

/-- What `gengbanlist` writes ends with a newline. -/
theorem getLast?_banlist (s : State) : s.banlist.getLast? = some newline := by
  unfold banlist
  obtain hnil | ⟨init, b, hconcat⟩ := s.gbans.eq_nil_or_concat
  · rw [hnil]
    decide
  · rw [hconcat, List.concat_eq_append, List.flatMap_append, ← List.append_assoc,
      List.flatMap_singleton, ← List.append_assoc]
    exact List.getLast?_concat

theorem extend_eq {l m : List UInt8} (hm : m.getLast? = some newline) :
    extend l m = m ++ if l.isSuffixOf m then [] else l := by
  have hzero : m.getLast? ≠ some 0 := by
    rw [hm]
    decide
  unfold extend
  rw [if_neg hzero]
  by_cases h : l.isSuffixOf m = true
  · rw [if_pos h, if_pos h, List.append_nil]
  · rw [if_neg h, if_neg h]

theorem suffix_extend {l m : List UInt8} : l <:+ extend l m := by
  unfold extend
  split
  · next h => exact List.isSuffixOf_iff_suffix.mp h
  · exact List.suffix_append _ _

theorem getLast?_extend {l m : List UInt8} (hl : l.getLast? = some newline)
    (hm : m.getLast? = some newline) : (extend l m).getLast? = some newline := by
  unfold extend
  split
  · exact hm
  · rw [List.getLast?_append, hl]
    rfl

/-- Who has the new list of bans. -/
theorem hand_message (text : List UInt8) (id : Nat) (c : Client) : (c.hand text id).message =
    if 0 ≤ c.servport ∧ c.message = none then some (.bans, id) else c.message := by
  unfold Client.hand
  by_cases hport : 0 ≤ c.servport
  · by_cases hmessage : c.message = none
    · simp [hport, hmessage, Client.distribute, Client.take]
    · simp [hport, hmessage, Client.distribute]
  · simp [hport]

theorem hand_conn (text : List UInt8) (id : Nat) (c : Client) : (c.hand text id).conn = c.conn := by
  unfold Client.hand
  split
  · split <;> rfl
  · rfl

theorem Inv.holders_hand (h : s.Inv) (text : List UInt8) (o : Owner) (i : Nat) :
    holders (s.clients.map fun c => c.hand text s.made) o i =
      if (o, i) = (.bans, s.made) then
        s.clients.countP fun c => 0 ≤ c.servport ∧ c.message = none
      else holders s.clients o i := by
  unfold holders
  rw [List.countP_map]
  split
  · next heq =>
    cases heq
    refine List.countP_congr fun c hc => ?_
    have hnot := h.not_made hc .bans
    simp only [Function.comp_apply, hand_message, decide_eq_true_eq]
    split <;> simp_all
  · next hne =>
    refine List.countP_congr fun c hc => ?_
    simp only [Function.comp_apply, hand_message, decide_eq_true_eq]
    split
    · next hfree => simp [hfree.2, Ne.symm hne]
    · rfl

/-- A client is fine when the bans are distributed. -/
theorem fine_hand {lists lists' : Lists} (h : Fine lists c) {t : List UInt8} {id : Nat}
    (hnew : Pool.body id (lists' .bans) = some t)
    (hservers : ∀ i, c.message = some (.servers, i) → text lists' c = text lists c)
    (hbans : ∀ i, c.message = some (.bans, i) → text lists' c = extend t (text lists c) ∧
      (text lists c).getLast? = some newline) : Fine lists' (c.hand t id) := by
  cases hmessage : c.message with
  | none =>
    have hsame : Fine lists' c := h.congr (by simp [text, hmessage])
    unfold Client.hand
    split
    · next hport => exact hsame.take_bans hmessage hnew hport
    · exact hsame
  | some message =>
    obtain ⟨o, i⟩ := message
    obtain ⟨l, hl⟩ : ∃ l, text lists' c = text lists c ++ l := by
      cases o with
      | servers => exact ⟨[], by rw [hservers i hmessage, List.append_nil]⟩
      | bans => exact ⟨_, (hbans i hmessage).1.trans (extend_eq (hbans i hmessage).2)⟩
    unfold Client.hand
    split
    · next hport =>
      rw [if_neg (by rw [hmessage]; simp)]
      refine h.grow hl (some t) (fun _ _ => hport) fun hpurge d hd => ?_
      cases hd
      have ho := h.bans hpurge _ hmessage
      dsimp only at ho
      subst ho
      unfold Client.Has
      rw [hmessage]
      dsimp only
      rw [(hbans i hmessage).1]
      exact suffix_extend
    · next hport =>
      exact h.grow hl c.track.due h.registered fun _ d hd => absurd (h.registered d hd) hport

/-- **`gengbanlist`.** -/
theorem Inv.gengbanlist (h : s.Inv) : s.gengbanlist.Inv ∧ Covers s s.gengbanlist := by
  unfold State.gengbanlist
  dsimp only
  split
  · exact ⟨h, .refl s⟩
  · obtain ⟨hcounted, -, hbody, hnew⟩ := (h.counted .bans).supersede (extend s.banlist)
      (show ∀ i ∈ Pool.ids (s.lists .bans), i < (Pool.Cell.mk s.made s.banlist
        (s.clients.countP fun c => 0 ≤ c.servport ∧ c.message = none)).id from h.made .bans)
    refine ⟨⟨?_, fun d hd => ?_, fun o => ?_, h.made_supersede .bans rfl, fun l hl => ?_,
      h.ports, fun d hd => ?_⟩, h.covers_supersede .bans rfl⟩
    · change ((s.clients.map fun c => c.hand s.banlist s.made).map Client.conn).Nodup
      have hsame : s.clients.map (Client.conn ∘ fun c => c.hand s.banlist s.made) =
          s.clients.map Client.conn := List.map_congr_left fun c _ => hand_conn ..
      rw [List.map_map, hsame]
      exact h.nodup
    · obtain ⟨c, hc, rfl⟩ := List.mem_map.mp hd
      rw [hand_conn]
      exact h.conns c hc
    · change Pool.Counted (Function.update s.lists .bans _ o)
        (holders (s.clients.map fun c => c.hand s.banlist s.made) o)
      by_cases ho : o = .bans
      · subst ho
        rw [Function.update_self]
        refine hcounted.congr fun i => ?_
        rw [h.holders_hand]
        by_cases hi : i = s.made
        · rw [if_pos (by rw [hi]), hi, Function.update_self]
        · rw [if_neg (by simpa using hi), Function.update_of_ne hi]
      · rw [Function.update_of_ne ho]
        refine (h.counted o).congr fun i => ?_
        rw [h.holders_hand, if_neg (by simp [ho])]
    · dsimp only at hl
      rw [Function.update_self] at hl
      have hends := getLast?_banlist s
      obtain rfl | ⟨k, hk, hl | hl⟩ := Pool.mem_supersede hl
      · exact hends
      · rw [hl]
        exact h.ends k hk
      · rw [hl]
        exact getLast?_extend hends (h.ends k hk)
    · obtain ⟨c, hc, rfl⟩ := List.mem_map.mp hd
      refine fine_hand (h.fine c hc) ?_ (fun i hmessage => ?_) fun i hmessage => ?_
      · dsimp only
        rw [Function.update_self]
        exact hnew
      · refine text_congr fun o j hj => ?_
        cases hmessage.symm.trans hj
        rfl
      · have htext := h.text_eq hc hmessage
        obtain ⟨l, hl, -, hbody⟩ := Pool.mem_of_body htext
        refine ⟨text_of_body hmessage ?_, hbody ▸ h.ends l hl⟩
        dsimp only
        rw [Function.update_self, h.body_supersede .bans rfl hc hmessage]

/-! ## Servers -/

theorem Inv.servermessage (h : s.Inv) (g : Gameserver) (msg : List UInt8) :
    (s.servermessage g msg).Inv ∧ (s.servermessage g msg).lists = s.lists := by
  unfold State.servermessage
  split
  · exact ⟨h, rfl⟩
  · exact ⟨h.outputf _ msg, rfl⟩

theorem Inv.checkgameserver (h : s.Inv) (g : Gameserver) :
    (s.checkgameserver g).2.Inv ∧ (s.checkgameserver g).2.lists = s.lists := by
  have hsame : Inv { s with updateserverlist := true } := h.of_eq rfl rfl rfl rfl h.ports
  unfold State.checkgameserver
  split
  · split
    · exact ⟨hsame, rfl⟩
    · exact ⟨h, rfl⟩
  · split
    · split
      · obtain ⟨hinv, hlists⟩ := h.servermessage g (word "failreg failed pinging server\n")
        exact ⟨hinv.of_eq rfl rfl rfl rfl hinv.ports, hlists⟩
      · exact ⟨h, rfl⟩
    · exact ⟨h, rfl⟩

theorem Inv.checkservers (gs : List Gameserver) (s : State) (h : s.Inv) :
    (checkservers gs s).2.Inv ∧ (checkservers gs s).2.lists = s.lists := by
  induction gs generalizing s with
  | nil => exact ⟨h, rfl⟩
  | cons g gs ih =>
    obtain ⟨hinv, hlists⟩ := h.checkgameserver g
    obtain ⟨hinv', hlists'⟩ := ih _ hinv
    exact ⟨hinv', hlists'.trans hlists⟩

/-- **A server has answered.** -/
theorem Inv.confirm (h : s.Inv) (hc : c ∈ s.clients) (hport : 0 ≤ c.servport) :
    (s.confirm c).Inv ∧ Covers s (s.confirm c) := by
  let f : Client → Client := fun c => { c with registeredserver := true }
  let msg := word "succreg\n"
  have hmarked : (s.update c.conn f).Inv := by
    refine h.update (fun _ _ _ => rfl) (fun _ _ _ => rfl) fun d hd _ => ?_
    exact (h.fine d hd).of_eq rfl rfl rfl (fun hread => ⟨hread, rfl⟩) rfl id rfl
  have hinv := hmarked.outputf c.conn msg
  have hmem : (f c).outputf msg ∈ ((s.update c.conn f).outputf c.conn msg).clients := by
    refine List.mem_map.mpr ⟨f c, List.mem_map.mpr ⟨c, hc, if_pos rfl⟩, if_pos rfl⟩
  unfold State.confirm
  dsimp only
  split
  · next l hnone hlast =>
    have hl : l ∈ s.lists .bans := List.mem_of_getLast? hlast
    have hbody := Pool.body_of_mem (h.counted .bans).sorted hl
    have hgiven := hinv.give (c := (f c).outputf msg) hmem hnone (o := .bans)
      (List.mem_map_of_mem hl) (f := (Client.distribute · l.body)) (fun _ => rfl) (fun _ => rfl)
      ((hinv.fine _ hmem).take_bans hnone hbody hport)
    exact hgiven
  · exact ⟨hinv, .of_eq rfl⟩

theorem Inv.pong (h : s.Inv) (host : Nat) (port : Int) :
    (s.pong host port).Inv ∧ Covers s (s.pong host port) := by
  unfold State.pong
  split
  · exact ⟨h, .refl s⟩
  · next i _ =>
    split
    · exact ⟨h, .refl s⟩
    · next g hg =>
      have hport := h.ports g (List.mem_of_getElem? hg)
      have hports : ∀ lastpong : UInt32, ∀ k ∈ s.gameservers.set i { g with lastpong },
          0 ≤ k.port := by
        intro lastpong k hk
        obtain hk | rfl := List.mem_or_eq_of_mem_set hk
        · exact h.ports k hk
        · exact hport
      dsimp only
      split
      · split
        · exact ⟨h.of_eq rfl rfl rfl rfl (hports _), .of_eq rfl⟩
        · next c hfind =>
          unfold findclient at hfind
          have hsame : g.host = c.host ∧ g.port = c.servport := by
            simpa using List.find?_some hfind
          obtain ⟨hinv, hcovers⟩ :=
            h.confirm (List.mem_of_find?_eq_some hfind) (hsame.2 ▸ hport)
          exact ⟨hinv.of_eq rfl rfl rfl rfl (hports _), hcovers⟩
      · exact ⟨h.of_eq rfl rfl rfl rfl (hports _), .of_eq rfl⟩

theorem port_checkgameserver (s : State) (g : Gameserver) {k : Gameserver}
    (hk : (s.checkgameserver g).1 = some k) : k.port = g.port := by
  unfold State.checkgameserver at hk
  split at hk
  · split at hk <;> cases hk
    rfl
  · split at hk
    · split at hk <;> cases hk
      rfl
    · cases hk
      rfl

theorem ports_checkservers (gs : List Gameserver) (s : State) (h : ∀ g ∈ gs, 0 ≤ g.port) :
    ∀ k ∈ (checkservers gs s).1, 0 ≤ k.port := by
  induction gs generalizing s with
  | nil => nofun
  | cons g gs ih =>
    intro k hk
    obtain hk | hk := List.mem_append.mp hk
    · rw [port_checkgameserver s g (Option.mem_toList.mp hk)]
      exact h g List.mem_cons_self
    · exact ih _ (fun g hg => h g (List.mem_cons_of_mem _ hg)) k hk

theorem Inv.checkgameservers (h : s.Inv) :
    s.checkgameservers.Inv ∧ s.checkgameservers.lists = s.lists := by
  obtain ⟨hinv, hlists⟩ := Inv.checkservers s.gameservers s h
  exact ⟨hinv.of_eq rfl rfl rfl rfl (ports_checkservers s.gameservers s h.ports), hlists⟩

theorem ports_repin {host : Nat} {port : Int} {gs gs' : List Gameserver}
    (h : ∀ g ∈ gs, 0 ≤ g.port) (hgs : repin host port gs = some gs') : ∀ g ∈ gs', 0 ≤ g.port := by
  induction gs generalizing gs' with
  | nil => cases hgs
  | cons g gs ih =>
    have hg := h g List.mem_cons_self
    have hrest := fun k hk => h k (List.mem_cons_of_mem g hk)
    unfold repin at hgs
    split at hgs
    · cases hgs
      intro k hk
      obtain rfl | hk := List.mem_cons.mp hk
      · exact hg
      · exact hrest k hk
    · obtain ⟨gs'', hgs'', rfl⟩ := Option.map_eq_some_iff.mp hgs
      intro k hk
      obtain rfl | hk := List.mem_cons.mp hk
      · exact hg
      · exact ih hrest hgs'' k hk

theorem Inv.addgameserver (h : s.Inv) (hport : 0 ≤ c.servport) :
    (s.addgameserver c).Inv ∧ (s.addgameserver c).lists = s.lists := by
  unfold State.addgameserver
  split
  · exact ⟨h, rfl⟩
  · split
    · next gs hgs =>
      exact ⟨h.of_eq rfl rfl rfl rfl (ports_repin h.ports hgs), rfl⟩
    · split
      · exact ⟨h.outputf _ _, rfl⟩
      · refine ⟨h.of_eq rfl rfl rfl rfl fun g hg => ?_, rfl⟩
        obtain hg | hg := List.mem_append.mp hg
        · exact h.ports g hg
        · rw [List.mem_singleton.mp hg]
          exact hport

/-! ## Requests -/

/-- The offset of a client is zero. -/
def Unsent (s : State) (conn : Nat) : Prop := ∀ c ∈ s.clients, c.conn = conn → c.outputpos = 0

theorem Unsent.update (h : s.Unsent conn) {k : Nat} {f : Client → Client}
    (hconn : ∀ c, (f c).conn = c.conn) (hpos : ∀ c, c.outputpos = 0 → (f c).outputpos = 0) :
    (s.update k f).Unsent conn := by
  intro d hd heq
  obtain ⟨c, hc, rfl⟩ := List.mem_map.mp hd
  split at heq
  · next hk =>
    rw [if_pos hk]
    exact hpos c (h c hc (hconn c ▸ heq))
  · next hk =>
    rw [if_neg hk]
    exact h c hc heq

theorem Unsent.outputf (h : s.Unsent conn) (k : Nat) (msg : List UInt8) :
    (s.outputf k msg).Unsent conn :=
  h.update (fun _ => rfl) fun _ hpos => hpos

theorem clients_genserverlist (s : State) : s.genserverlist.clients = s.clients := by
  unfold State.genserverlist
  split <;> rfl

theorem Inv.auth (replies : List (List UInt8)) (s : State) (h : s.Inv) (hpos : s.Unsent conn) :
    (replies.foldl (fun s msg => s.outputf conn msg) s).Inv ∧
      (replies.foldl (fun s msg => s.outputf conn msg) s).lists = s.lists ∧
      (replies.foldl (fun s msg => s.outputf conn msg) s).Unsent conn := by
  induction replies generalizing s with
  | nil => exact ⟨h, rfl, hpos⟩
  | cons msg replies ih => exact ih _ (h.outputf conn msg) (hpos.outputf conn msg)

theorem Unsent.addgameserver (h : s.Unsent conn) : (s.addgameserver c).Unsent conn := by
  unfold State.addgameserver
  split
  · exact h
  · split
    · exact h
    · split
      · exact h.outputf _ _
      · exact h

/-- **A line of a client.** -/
theorem Inv.request (h : s.Inv) (hpos : s.Unsent conn) (r : Request) :
    (s.request conn r).2.Inv ∧ Covers s (s.request conn r).2 ∧
      (s.request conn r).2.Unsent conn := by
  unfold State.request
  cases hl : Keyed.lookup Client.conn conn s.clients with
  | none => exact ⟨h, .refl s, hpos⟩
  | some c =>
    obtain ⟨hc, rfl⟩ := Keyed.lookup_mem hl
    let f : Client → Client := fun c => { c with lastinput := s.servtime }
    have hinv : (s.update c.conn f).Inv := by
      refine h.update (fun _ _ _ => rfl) (fun _ _ _ => rfl) fun d hd _ => ?_
      exact (h.fine d hd).of_eq rfl rfl rfl (fun hread => ⟨hread, rfl⟩) rfl id rfl
    have hunsent : (s.update c.conn f).Unsent c.conn := hpos.update (fun _ => rfl) fun _ hpos => hpos
    have hmem : f c ∈ (s.update c.conn f).clients := List.mem_map.mpr ⟨c, hc, if_pos rfl⟩
    cases r with
    | list =>
      obtain ⟨hgen, hcovers⟩ := hinv.genserverlist
      have hclients := clients_genserverlist (s.update c.conn f)
      have hmem' : f c ∈ (s.update c.conn f).genserverlist.clients := hclients ▸ hmem
      have hunsent' : (s.update c.conn f).genserverlist.Unsent c.conn := by
        unfold Unsent
        rw [hclients]
        exact hunsent
      dsimp only
      split
      · next l hnone hlast =>
        have hl := List.mem_of_getLast? hlast
        have hfine := (hgen.fine _ hmem').take_list hnone (hpos c hc rfl) l.id
        obtain ⟨hgive, hcovers'⟩ := hgen.give hmem' hnone (o := .servers) (List.mem_map_of_mem hl)
          (f := Client.discard) (fun _ => rfl) (fun _ => rfl) hfine
        refine ⟨hgive, hcovers.trans hcovers', ?_⟩
        have htake : ((s.update c.conn f).genserverlist.give c.conn .servers l.id).Unsent c.conn :=
          hunsent'.update (fun _ => rfl) fun _ hpos => hpos
        exact htake.update (fun _ => rfl) fun _ _ => rfl
      · exact ⟨hgen, hcovers, hunsent'⟩
    | regserv port =>
      dsimp only
      split
      · exact ⟨hinv, .of_eq rfl, hunsent⟩
      · split
        · exact ⟨hinv.outputf c.conn _, .of_eq rfl, hunsent.outputf c.conn _⟩
        · next hport =>
          have hport : 0 ≤ port := by
            by_contra hneg
            exact hport (.inl (not_le.mp hneg))
          let g : Client → Client := fun c => { c with servport := port }
          have hinv' : ((s.update c.conn f).update c.conn g).Inv := by
            refine hinv.update (fun _ _ _ => rfl) (fun _ _ _ => rfl) fun d hd _ => ?_
            exact (hinv.fine d hd).of_eq rfl rfl rfl (fun hread => ⟨hread, rfl⟩) rfl
              (fun _ => hport) rfl
          have hunsent' : ((s.update c.conn f).update c.conn g).Unsent c.conn :=
            hunsent.update (fun _ => rfl) fun _ hpos => hpos
          obtain ⟨hadd, hlists⟩ := hinv'.addgameserver (c := { c with servport := port }) hport
          exact ⟨hadd, .of_eq hlists, hunsent'.addgameserver⟩
    | auth replies =>
      obtain ⟨hinv', hlists, hunsent'⟩ := Inv.auth replies _ hinv hunsent
      exact ⟨hinv', .of_eq hlists, hunsent'⟩
    | nothing => exact ⟨hinv, .of_eq rfl, hunsent⟩

/-- **`checkclientinput`.** -/
theorem Inv.checkclientinput (fits : Bool) (rs : List Request) (s : State) (h : s.Inv)
    (hpos : s.Unsent conn) : (checkclientinput conn fits rs s).2.Inv ∧
      Covers s (checkclientinput conn fits rs s).2 := by
  induction rs generalizing s with
  | nil => exact ⟨h, .refl s⟩
  | cons r rs ih =>
    obtain ⟨hinv, hcovers, hunsent⟩ := h.request hpos r
    unfold State.checkclientinput
    split
    · next result t heq =>
      rw [heq] at hinv hcovers
      exact ⟨hinv, hcovers⟩
    · next t heq =>
      rw [heq] at hinv hcovers hunsent
      obtain ⟨hinv', hcovers'⟩ := ih t hinv hunsent
      exact ⟨hinv', hcovers.trans hcovers'⟩

/-- **The receiving part of `checkclients`.** -/
theorem Inv.receive (h : s.Inv) (conn : Nat) (rs : List Request) (fits : Bool) :
    Keeps s (s.receive conn rs fits) := by
  unfold State.receive
  cases hl : Keyed.lookup Client.conn conn s.clients with
  | none => exact .of_inv h rfl
  | some c =>
    obtain ⟨hc, rfl⟩ := Keyed.lookup_mem hl
    dsimp only
    split
    · next hread =>
      have hinv : (s.update c.conn fun c => { c with readable := false }).Inv := by
        refine h.update (fun _ _ _ => rfl) (fun _ _ _ => rfl) fun d hd _ => ?_
        exact (h.fine d hd).of_eq rfl rfl rfl nofun rfl id rfl
      have hunsent : (s.update c.conn fun c => { c with readable := false }).Unsent c.conn := by
        intro d hd heq
        obtain ⟨e, he, rfl⟩ := List.mem_map.mp hd
        split at heq
        · next hconn =>
          obtain rfl := List.inj_on_of_nodup_map h.nodup he hc hconn
          rw [if_pos rfl]
          exact ((h.fine e he).reading hread).2
        · next hconn => exact absurd heq hconn
      obtain ⟨hinv', hcovers⟩ := Inv.checkclientinput fits rs _ hinv hunsent
      split
      · next t heq =>
        rw [heq] at hinv' hcovers
        exact ⟨t, rfl, hinv', hcovers⟩
      · next t heq =>
        rw [heq] at hinv' hcovers
        obtain ⟨u, hu, hinv'', hcovers'⟩ := hinv'.purgeclient c.conn
        exact ⟨u, hu, hinv'', Covers.trans hcovers hcovers'⟩
    · exact .of_inv h rfl

theorem Inv.limits (h : s.Inv) (conn : Nat) : Keeps s (s.limits conn) := by
  unfold State.limits
  cases Keyed.lookup Client.conn conn s.clients with
  | none => exact .of_inv h rfl
  | some c =>
    dsimp only
    generalize (if c.registeredserver then KEEPALIVE_TIME else CLIENT_TIME) = limit
    split
    · exact h.purgeclient conn
    · exact .of_inv h rfl

/-! ## Runs -/

/-- A client is added. -/
theorem Inv.add (h : s.Inv) (host : Nat) (connecttime lastinput : UInt32) :
    Inv { s with
      clients := s.clients ++ [{ conn := s.accepted, host, connecttime, lastinput }]
      accepted := s.accepted + 1 } := by
  refine ⟨?_, fun c hc => ?_, fun o => ?_, h.made, h.ends, h.ports, fun c hc => ?_⟩
  · refine Keyed.nodup_add h.nodup (Keyed.lookup_eq_none.mpr fun c hc => ?_)
    exact Nat.ne_of_lt (h.conns c hc)
  · obtain hc | hc := List.mem_append.mp hc
    · exact Nat.lt_succ_of_lt (h.conns c hc)
    · rw [List.mem_singleton.mp hc]
      exact Nat.lt_succ_self _
  · refine (h.counted o).congr fun i => ?_
    simp [holders, List.countP_append]
  · obtain hc | hc := List.mem_append.mp hc
    · exact h.fine c hc
    · rw [List.mem_singleton.mp hc]
      exact .initial ..

theorem Inv.accept (h : s.Inv) (host : Nat) : Keeps s (s.accept host) := by
  unfold State.accept
  split
  · exact .of_inv h rfl
  · dsimp only
    refine Keeps.map ?_ fun t ht => ⟨ht.add host _ _, .of_eq rfl⟩
    split
    · split
      · exact h.purgeclient _
      · exact .of_inv h rfl
    · exact .of_inv h rfl

theorem Inv.purgeclients (l : List Client) (s : State) (h : s.Inv) :
    Keeps s (l.foldlM (fun s c => s.purgeclient c.conn) s) := by
  induction l generalizing s with
  | nil => exact .of_inv h rfl
  | cons c l ih =>
    rw [List.foldlM_cons]
    exact (h.purgeclient c.conn).bind fun t ht => ih t ht

theorem Inv.bangameservers (h : s.Inv) : s.bangameservers.Inv :=
  h.of_eq rfl rfl rfl rfl fun g hg => h.ports g (List.mem_filter.mp hg).1

theorem outputs_eq (msgs : List (List UInt8)) (c : Client) :
    (msgs.foldl Client.outputf c).conn = c.conn ∧
      (msgs.foldl Client.outputf c).message = c.message := by
  induction msgs generalizing c with
  | nil => exact ⟨rfl, rfl⟩
  | cons msg msgs ih => exact ih (c.outputf msg)

theorem inv_initial : ({} : State).Inv :=
  ⟨List.nodup_nil, nofun, fun _ => Pool.counted_nil, nofun, nofun, nofun, nofun⟩

/-- **Every event** keeps up the invariant, and nothing that is deleted is used. -/
theorem Inv.step (h : s.Inv) (e : Event) : Keeps s (step s e) := by
  cases e with
  | reload bans servbans gbans mastermotd =>
    have hset : Inv { s with bans, servbans, gbans, mastermotd } :=
      h.of_eq rfl rfl rfl rfl h.ports
    obtain ⟨t, ht, hinv, hcovers⟩ := Inv.purgeclients _ _ hset.bangameservers
    obtain ⟨hinv', hcovers'⟩ := hinv.gengbanlist
    refine ⟨t.gengbanlist, ?_, hinv', Covers.trans hcovers hcovers'⟩
    exact congrArg (Except.map State.gengbanlist) ht
  | clock servtime => exact .of_inv (h.of_eq rfl rfl rfl rfl h.ports) rfl
  | select expired =>
    refine .of_inv (h.map (fun c _ => ?_) (fun c _ => ?_) fun c hc => ?_) rfl
    · exact (outputs_eq _ c).1
    · exact (outputs_eq _ c).2
    · exact ((h.fine c hc).outputs _).select
  | pong host port =>
    obtain ⟨hinv, hcovers⟩ := h.pong host port
    exact ⟨_, rfl, hinv, hcovers⟩
  | accept host => exact h.accept host
  | send conn result beyond => exact h.send conn result beyond
  | receive conn requests fits => exact h.receive conn requests fits
  | hangup conn => exact h.purgeclient conn
  | limits conn => exact h.limits conn
  | checkgameservers =>
    obtain ⟨hinv, hlists⟩ := h.checkgameservers
    exact .of_inv hinv hlists

theorem inv_run {es : List Event} (hrun : Run.Steps State.step (fun _ _ => True) {} es s) :
    s.Inv :=
  hrun.invariant Inv (fun s e t h _ hstep => by
    obtain ⟨u, hu, hinv, -⟩ := h.step e
    cases hu.symm.trans hstep
    exact hinv) inv_initial

end State

end Masterserver

end QServ
