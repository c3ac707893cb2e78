import LbRpc.Base.NodeMap
import LbRpc.Reactor.EventLoop

/-!
# What is published to the descriptors that are online

`SubscribeList::make_publish_map` (`dns/src/subscribe.cpp`) with the iterator of its loop.
`_push_list` is a `hash_map`: a map of nodes, in any order.
-/

namespace LbRpc

/-- `_push_list` -/
abbrev PushList := NodeMap Fd (Finset UInt64)

/-- A `publish_map` whose order does not matter. -/
abbrev PublishMap := Fd → Option (Finset UInt64)

namespace SubscribeList

/-- The body of the loop, at the entry that the iterator `a` points to. -/
def publishEntry (onlineFds : Finset Fd) (a : ℕ) (entry : Node Fd (Finset UInt64)) (need : PublishMap)
    (push : PushList) : PublishMap × PushList :=
  if entry.key ∈ onlineFds then
    let (mods, push) := push.subscript entry.key ∅
    (Function.update need entry.key (some mods), push.erase a)
  else (need, push)

/-- The loop from the iterator `it` on. -/
def publishLoop (onlineFds : Finset Fd) :
    ℕ → Option ℕ → PublishMap → PushList → Except Crash (PublishMap × PushList)
  | 0, _, _, _ => .error .diverged
  | _ + 1, none, need, push => .ok (need, push)
  | fuel + 1, some a, need, push =>
    match push.deref a with
    | none => .error .outOfBounds
    | some entry =>
      let (need, push) := publishEntry onlineFds a entry need push
      -- `it++`, which reads the node that `it` points to
      match push.next a with
      | none => .error .outOfBounds
      | some it => publishLoop onlineFds fuel it need push

/-- `SubscribeList::make_publish_map`. -/
def makePublishMap (fuel : ℕ) (onlineFds : Finset Fd) (need : PublishMap) (push : PushList) :
    Except Crash (PublishMap × PushList) :=
  publishLoop onlineFds fuel push.first need push

end SubscribeList

end LbRpc
