import KernelEvmStorage.Encoding
import KernelEvmStorage.Path
import KernelEvmStorage.Host
import KernelEvmStorage.Frame
import KernelEvmStorage.Storage.Layout
import KernelEvmStorage.Storage.Addressing
import KernelEvmStorage.Storage.Entities
import KernelEvmStorage.Storage.Chunked
import KernelEvmStorage.Storage.Footprints
import KernelEvmStorage.Storage.Blocks
import KernelEvmStorage.Storage.Objects
import KernelEvmStorage.Storage.Lookups
import KernelEvmStorage.Reassembly.Machine
import KernelEvmStorage.Reassembly.Refinement
import KernelEvmStorage.Reassembly.Protocol
import KernelEvmStorage.Reassembly.Isolation
import KernelEvmStorage.Reassembly.Runs
