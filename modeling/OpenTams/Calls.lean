import OpenTams.Flows

/-!
# Calls of the metastore

Every write of the flow and segment stores as one type of calls.
-/

namespace OpenTams

open Sql

inductive StoreCall where
  | upsertFlow (f : Flow)
  | deleteFlow (id : Uuid)
  | putFlowTag (id : Uuid) (name value : Str)
  | deleteFlowTag (id : Uuid) (name : Str)
  | putFlowLabel (id : Uuid) (label : Str)
  | deleteFlowLabel (id : Uuid)
  | putFlowDescription (id : Uuid) (desc : Str)
  | deleteFlowDescription (id : Uuid)
  | putFlowReadOnly (id : Uuid) (readOnly : Bool)
  | putFlowCollection (id : Uuid) (items : List CollectionItem)
  | deleteFlowCollection (id : Uuid)
  | putFlowAvgBitRate (id : Uuid) (rate : Int64)
  | deleteFlowAvgBitRate (id : Uuid)
  | putFlowMaxBitRate (id : Uuid) (rate : Int64)
  | deleteFlowMaxBitRate (id : Uuid)
  | insertSegments (nextval : Nat → Nat) (batch : InsertBatch)
  | deleteSegmentsByTimerange (q : DeleteQuery)

inductive Answer where
  | done
  | created (b : Bool)
  | inserted (r : InsertResult)
  | deleted (r : DeleteResult)
  deriving DecidableEq

def StoreCall.prog (c : Constraints) : StoreCall → Tx Answer
  | .upsertFlow f => (OpenTams.upsertFlow f).map .created
  | .deleteFlow id => (OpenTams.deleteFlow id).map fun _ => .done
  | .putFlowTag id name value => (OpenTams.putFlowTag id name value).map fun _ => .done
  | .deleteFlowTag id name => (OpenTams.deleteFlowTag id name).map fun _ => .done
  | .putFlowLabel id label => (OpenTams.putFlowLabel id label).map fun _ => .done
  | .deleteFlowLabel id => (OpenTams.deleteFlowLabel id).map fun _ => .done
  | .putFlowDescription id desc => (OpenTams.putFlowDescription id desc).map fun _ => .done
  | .deleteFlowDescription id => (OpenTams.deleteFlowDescription id).map fun _ => .done
  | .putFlowReadOnly id readOnly => (OpenTams.putFlowReadOnly id readOnly).map fun _ => .done
  | .putFlowCollection id items => (OpenTams.putFlowCollection id items).map fun _ => .done
  | .deleteFlowCollection id => (OpenTams.deleteFlowCollection id).map fun _ => .done
  | .putFlowAvgBitRate id rate => (OpenTams.putFlowAvgBitRate id rate).map fun _ => .done
  | .deleteFlowAvgBitRate id => (OpenTams.deleteFlowAvgBitRate id).map fun _ => .done
  | .putFlowMaxBitRate id rate => (OpenTams.putFlowMaxBitRate id rate).map fun _ => .done
  | .deleteFlowMaxBitRate id => (OpenTams.deleteFlowMaxBitRate id).map fun _ => .done
  | .insertSegments nextval batch => (OpenTams.insertSegments c nextval batch).map .inserted
  | .deleteSegmentsByTimerange q => (OpenTams.deleteSegmentsByTimerange q).map .deleted

end OpenTams
