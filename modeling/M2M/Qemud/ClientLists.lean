import M2M.Lib.BackLinks
import M2M.Lib.Machine
import M2M.Qemud.Multiplexer

/-! The two lists on which a client of qemud is, by their pointers, while callbacks run. -/

open M2M.Lib

namespace M2M.Qemud.ClientLists

/-- A service: the start of its list, whose links are `next_serv`. -/
structure Service (α : Type) where
  name : CString
  maxClients : Int
  numClients : Int
  clients : Option α

/-- A callback that runs: a `serv_connect`, which may call `qemud_client_new` once, or the
`clie_close` of a client. -/
inductive Callback (α κ : Type)
  | servConnect (s : κ) (channel : Int) (made : Bool)
  | clieClose (c : α)
  deriving DecidableEq

/-- The fields of the clients, by their addresses `α`, and the services, by their addresses `κ`.
`clieClose` is whether there is such a callback, `stack` holds the callbacks that run, the
innermost first, and `allocs` counts the clients ever allocated. -/
structure World (α κ : Type) where
  clients : Option α
  next : α → Option α
  pref : α → Link α
  nextServ : α → Option α
  channel : α → Int
  service : α → Option κ
  clieClose : α → Bool
  live : α → Bool
  services : List κ
  serv : κ → Service α
  stack : List (Callback α κ)
  allocs : Nat

inductive Event (α : Type)
  /-- The guest sends a control message, to a serial port of some version. -/
  | control (version : QemudVersion) (msg : List UInt8)
  /-- A `serv_connect` calls `qemud_client_new`, which is given an address by `malloc`. -/
  | clientNew (c : α) (clieClose : Bool)
  | connected
  /-- A service calls `qemud_client_close`, from a callback or not. -/
  | clientClose (c : α)
  | closed

namespace World

variable {α κ : Type} [DecidableEq α] [DecidableEq κ] (w : World α κ)

def clientRemove (c : α) : World α κ :=
  let links := (Links.mk w.clients w.next).write (w.pref c) (w.next c)
  let w := { w with clients := links.start, next := links.next }
  let w := { w with pref := repoint w.pref (w.next c) (w.pref c) }
  { w with next := Function.update w.next c none, pref := Function.update w.pref c (.next c) }

/-- `qemud_client_prepend` to `m->clients`. -/
def clientPrepend (c : α) : World α κ :=
  let w := { w with
    next := Function.update w.next c w.clients
    pref := Function.update w.pref c .first
    clients := some c }
  { w with pref := repoint w.pref (w.next c) (.next c) }

def clientAlloc (c : α) (channel : Int) (clieClose : Bool) : World α κ :=
  { w with
    nextServ := Function.update w.nextServ c none
    channel := Function.update w.channel c channel
    service := Function.update w.service c none
    clieClose := Function.update w.clieClose c clieClose
    live := Function.update w.live c true
    allocs := w.allocs + 1 }.clientPrepend c

def serviceAddClient (s : κ) (c : α) : World α κ :=
  { w with
    service := Function.update w.service c (some s)
    nextServ := Function.update w.nextServ c (w.serv s).clients
    serv := Function.update w.serv s { w.serv s with
      clients := some c, numClients := (w.serv s).numClients + 1 } }

/-- The loop of `qemud_service_remove_client`: the link that points to `c`. -/
def findLink (links : Links α) (c : α) : Nat → Link α → Option (Link α)
  | 0, _ => none
  | rounds + 1, pnode =>
    match links.read pnode with
    | none => none
    | some node => if node = c then some pnode else findLink links c rounds (.next node)

def serviceRemoveClient (s : κ) (c : α) : World α κ :=
  let links := Links.mk (w.serv s).clients w.nextServ
  match findLink links c (w.allocs + 1) .first with
  | none => w
  | some pnode =>
    let links := links.write pnode (w.nextServ c)
    { w with
      nextServ := links.next
      serv := Function.update w.serv s { w.serv s with
        clients := links.start, numClients := (w.serv s).numClients - 1 } }

/-- The end of `qemud_client_disconnect`, after `clie_close`. -/
def finishDisconnect (c : α) : World α κ :=
  let w := { w with clieClose := Function.update w.clieClose c false }
  let w :=
    match w.service c with
    | none => w
    | some s =>
      let w := w.serviceRemoveClient s c
      { w with service := Function.update w.service c none }
  { w with live := Function.update w.live c false }

/-- `qemud_client_disconnect`, up to `clie_close` if there is one. -/
def clientDisconnect (c : α) : World α κ :=
  let w := w.clientRemove c
  if w.clieClose c then { w with stack := .clieClose c :: w.stack } else w.finishDisconnect c

def clientNew (s : κ) (c : α) (channel : Int) (clieClose : Bool) : World α κ :=
  (w.clientAlloc c channel clieClose).serviceAddClient s c

def serviceFind (name : CString) : Option κ := w.services.find? fun s => (w.serv s).name = name

/-- `qemud_multiplexer_connect`, up to `serv_connect`. -/
def multiplexerConnect (name : CString) (channel : Int) : World α κ :=
  match w.serviceFind name with
  | none => w
  | some s =>
    if (w.serv s).maxClients > 0 ∧ (w.serv s).numClients ≥ (w.serv s).maxClients then w
    else { w with stack := .servConnect s channel false :: w.stack }

/-- The loop of `qemud_multiplexer_disconnect`: the first client of a channel. -/
def findChannel (channel : Int) : Nat → Option α → Option α
  | 0, _ => none
  | rounds + 1, p =>
    match p with
    | none => none
    | some c => if w.channel c = channel then some c else findChannel channel rounds (w.next c)

def multiplexerDisconnect (channel : Int) : World α κ :=
  match w.findChannel channel (w.allocs + 1) w.clients with
  | none => w
  | some c => { w with channel := Function.update w.channel c (-1) }.clientDisconnect c

def controlRecv (version : QemudVersion) (msg : List UInt8) : World α κ :=
  match QemudMultiplexer.parseControl msg with
  | .connect name channel => w.multiplexerConnect name channel
  | .disconnect channel => w.multiplexerDisconnect channel
  | .legacyConnect name channel =>
    if version = .normal then w
    else w.multiplexerConnect (if name = ascii "control" then ascii "hw-control" else name) channel
  | .malformed | .unknown => w

end World

section Step

variable {α κ : Type} [DecidableEq α] [DecidableEq κ]

/-- A control message comes when no callback runs.  A service closes clients of its own that are
not being closed. -/
def step : Machine.Step (World α κ) (Event α)
  | w, .control version msg => if w.stack = [] then some (w.controlRecv version msg) else none
  | w, .clientNew c clieClose =>
    match w.stack with
    | .servConnect s channel false :: stack =>
      if w.live c then none
      else
        some { w.clientNew s c channel clieClose with
          stack := .servConnect s channel true :: stack }
    | _ => none
  | w, .connected =>
    match w.stack with
    | .servConnect _ _ _ :: stack => some { w with stack }
    | _ => none
  | w, .clientClose c =>
    if w.live c ∧ (w.service c).isSome ∧ .clieClose c ∉ w.stack then some (w.clientDisconnect c)
    else none
  | w, .closed =>
    match w.stack with
    | .clieClose c :: stack => some ({ w with stack }.finishDisconnect c)
    | _ => none

/-- After `qemud_multiplexer_init` and the registration of the services. -/
def Init (w : World α κ) : Prop :=
  ∃ (w₀ : World α κ) (control : α), w₀.clients = none ∧ (∀ c, w₀.live c = false) ∧
    (∀ s, (w₀.serv s).clients = none ∧ (w₀.serv s).numClients = 0) ∧ w₀.stack = [] ∧
    w = w₀.clientAlloc control 0 false

end Step

end M2M.Qemud.ClientLists
