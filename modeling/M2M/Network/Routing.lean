import M2M.Lib.Loop
import M2M.Network.Packet
import Mathlib.Logic.Function.Basic

/-! Next-hop selection: `dijkstra`, `routePath` and `route_discovery` over the adjacency
matrix `NODE_MAP` of devices `1..n`. -/

namespace M2M.Network.Routing

open M2M.Lib.Loop

/-- `MAXSIZE`, the distance of a device that no path has reached. -/
def maxSize : Nat := maxNodeNum * maxNodeNum

def routePathSize : Int := 40

/-- The globals of one device's process.  `path` is indexed from `route_path`, so that
`path (-1)` is the word in front of the array. -/
structure Globals where
  d : Nat → Nat
  prev : Nat → Int
  path : Int → Nat
  hops : Int

structure Search where
  d : Nat → Nat
  prev : Nat → Int
  visited : Nat → Bool

def initLoop (n : Nat) (s : Search) : Search :=
  forUpTo (fun i s =>
    { d := Function.update s.d i maxSize
      prev := Function.update s.prev i (-1)
      visited := Function.update s.visited i false }) s n

/-- The unvisited device of least distance, the first one on ties; `none` stands for `-1`. -/
def findMini (n : Nat) (s : Search) : Option Nat :=
  forUpTo (fun i mini =>
    if s.visited i = false ∧ (∀ m ∈ mini, s.d i < s.d m) then some i else mini) none n

def relaxOne (nodeMap : Nat → Nat → Nat) (mini i : Nat) (s : Search) : Search :=
  if nodeMap mini i ≠ 0 then
    if s.d mini + nodeMap mini i < s.d i then
      { s with
        d := Function.update s.d i (s.d mini + nodeMap mini i)
        prev := Function.update s.prev i mini }
    else s
  else s

/-- One round of the main loop.  There is an unvisited device in every round, so the
source never indexes with `-1`. -/
def round (nodeMap : Nat → Nat → Nat) (n : Nat) (s : Search) : Search :=
  match findMini n s with
  | none => s
  | some mini =>
    forUpTo (relaxOne nodeMap mini) { s with visited := Function.update s.visited mini true } n

/-- `dijkstra(s)`; the local array `visited` starts with arbitrary contents. -/
def dijkstra (nodeMap : Nat → Nat → Nat) (n : Nat) (visited : Nat → Bool) (g : Globals)
    (s : Nat) : Globals :=
  let i := initLoop n ⟨g.d, g.prev, visited⟩
  let e := forUpTo (fun _ => round nodeMap n) { i with d := Function.update i.d s 0 } n
  { g with d := e.d, prev := e.prev }

def clearPath (g : Globals) : Globals := { g with hops := -1 }

/-- `routePath(dest)`.  The recursion runs on `fuel`; an index past the end of the array
has no result, while the index `-1` of the first write hits the word in front of it. -/
def routePath : Nat → Globals → Nat → Option Globals
  | 0, _, _ => none
  | fuel + 1, g, dest => do
    let g ← if g.prev dest ≠ -1 then routePath fuel g (g.prev dest).toNat else some g
    if g.hops < routePathSize then
      some { g with path := Function.update g.path g.hops dest, hops := g.hops + 1 }
    else none

/-- `route_discovery(start, end)` with `TimingModel` 1, which returns `route_path[0]`. -/
def routeDiscovery (nodeMap : Nat → Nat → Nat) (n : Nat) (visited : Nat → Bool) (g : Globals)
    (start dest : Nat) : Option (Nat × Globals) :=
  (routePath (maxSize + 1) (clearPath (dijkstra nodeMap n visited g start)) dest).map
    (fun g => (g.path 0, g))

/-- The node after `k` hops from `c` towards `dest`, every node running its own search in
its own memory. -/
def relay (nodeMap : Nat → Nat → Nat) (n : Nat) (visited : Nat → Nat → Bool)
    (mem : Nat → Globals) (dest : Nat) : Nat → Nat → Option Nat
  | 0, c => some c
  | k + 1, c =>
    (routeDiscovery nodeMap n (visited c) (mem c) c dest).bind
      (fun r => relay nodeMap n visited mem dest k r.1)

end M2M.Network.Routing
