import Sluice.Registry

set_option autoImplicit false

namespace Sluice.Stock

def addressed : List String := ["destination"]

def collecting : List String := ["max_results:0", "capture_msgs:false"]

def buffered : List String := ["tank_size:0", "priority_field_name:seq_num"]

def catalogue : List (Descriptor Stock) := [
  .make "pass_through" "Forwards units unchanged" [] [] .passThrough,
  .make "waste" "Discards every unit" [] [] (.waste 0),
  .make "sink" "Keeps the units it receives" [collecting] ["max_results:30"] (.sink .empty),
  .make "reverse_string" "Reverses the text payload" [] [] .reverseString,
  .make "wrap" "Adds a prefix and a suffix to the payload" []
    ["data_prefix:empty", "data_suffix:empty"] (.wrap .empty),
  .make "seq_packet" "Numbers units in arrival order" []
    ["seq_packet_field_name:seq_num", "start:0"] (.seqPacket .empty),
  .make "branch_clone" "Sends a copy down the branch" [] [] .branchClone,
  .make "branch_ref" "Sends the same unit down the branch" [] [] .branchRef,
  .make "branch_if" "Branches when a comparison holds" []
    ["branch_key", "comparison:equals", "compare_value:true", "branch_on_packet:true"]
    (.branchIf .empty),
  .make "factorial_calc" "One step of an iterative factorial" [] [] .factorial,
  .make "tank_queue" "Bounded priority buffer" [buffered] [] .tankQueue,
  .make "tank_feed" "Feeds a loop back into a tank_queue" [] [] (.tankFeed .empty),
  .make "send_message" "Sends a fixed message ahead of each unit" [addressed]
    ["message", "single_use:true"] (.sendMessage .empty),
  .make "reset" "Resets a parameter on another stage" [addressed]
    ["param_name", "new_value:none"] (.reset .empty)]

def registry : Registry Stock :=
  ⟨Dict.ofPairs (catalogue.map fun d => (d.typeName, d)), [], []⟩

def scriptType (typeName : String) (keys : List String) (run : Script) : Descriptor Stock :=
  .make typeName s!"Script stage '{typeName}'" [] keys (.script run (.make "" ""))

end Sluice.Stock
