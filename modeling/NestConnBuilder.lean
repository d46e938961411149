import NestConnBuilder.Kernel
import NestConnBuilder.Construction
import NestConnBuilder.Worker
import NestConnBuilder.Structural
import NestConnBuilder.OneToOne
import NestConnBuilder.AllToAll
import NestConnBuilder.FixedInDegree
import NestConnBuilder.FixedOutDegree
import NestConnBuilder.FixedTotalNumber
import NestConnBuilder.Bernoulli
import NestConnBuilder.SymmetricBernoulli
import NestConnBuilder.MakeSymmetric
import NestConnBuilder.LoopRegimes
import NestConnBuilder.Divergence
import NestConnBuilder.Parameters
import NestConnBuilder.SynapseSpecs
import NestConnBuilder.Tripartite
import NestConnBuilder.SingleConnect
import NestConnBuilder.Values
import NestConnBuilder.Threads
